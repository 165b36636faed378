import WireReplay.Proofs.RelayMoments

/-!
# Relays stream what they read

Whatever a relay reads, it passes on and flushes before it waits for the next read. So at every
moment the output holds a prefix of what was read and lacks nothing but a part of the last read,
however the relay ends; and one that ends well has sent all of its data and passed on all that it
read.
-/

namespace WireReplay

namespace Link

variable {link after : Link} {room : Nat} {limit : Limit} {clock later : Clock} {bytes : Bytes}

theorem length_le_of_read (h : link.read room limit clock = ⟨.done bytes, later, after⟩) :
    bytes.length ≤ room := by
  by_cases hd : ∃ all, (link.deliver limit clock).ending = .done all
  · obtain ⟨all, hd⟩ := hd
    have hdelivered : link.deliver limit clock = ⟨.done all, (link.deliver limit clock).clock,
        (link.deliver limit clock).link⟩ := by rw [← hd]
    have hread := read_of_delivered room hdelivered
    rw [h] at hread
    cases hread
    exact List.length_take_le _ _
  · have hread := read_of_not_delivered room fun all he => hd ⟨all, he⟩
    exact absurd ⟨bytes, by rw [← hread, h]⟩ hd

theorem delivered_of_read (h : link.read room limit clock = ⟨.done bytes, later, after⟩) :
    after.delivered = link.delivered ++ bytes := by
  obtain rfl := congrArg Moved.link h
  have hending := congrArg Moved.ending h
  simp only [read] at hending ⊢
  rw [hending]

theorem delivered_of_last_read {ending : Ending Bytes}
    (h : link.read room limit clock = ⟨ending, later, after⟩)
    (hover : ∀ bytes, ending = .done bytes → bytes = []) : after.delivered = link.delivered := by
  by_cases hd : ∃ bytes, ending = .done bytes
  · obtain ⟨bytes, rfl⟩ := hd
    rw [delivered_of_read h, hover bytes rfl, List.append_nil]
  · obtain rfl := congrArg Moved.link h
    have hending := congrArg Moved.ending h
    simp only [read] at hending ⊢
    rw [hending]
    cases ending with
    | done bytes => exact absurd ⟨bytes, rfl⟩ hd
    | _ => rfl

theorem written_of_read {ending : Ending Bytes}
    (h : link.read room limit clock = ⟨ending, later, after⟩) : after.written = link.written := by
  obtain rfl := congrArg Moved.link h
  rfl

end Link

namespace Relay

/-- The reads `earlier` were passed on and flushed, one by one, and `passed` of the read behind them
was accepted. -/
structure PassedOn (output : Link) (received : Nat) (earlier : List Bytes) (passed : Bytes) :
    Prop where
  written : output.written = earlier.flatten ++ passed
  flushes : output.flushes = earlier.length
  received : received = earlier.flatten.length

abbrev Moment.PassedOn (m : Moment) : List Bytes → Bytes → Prop :=
  Relay.PassedOn m.state.output m.state.received

/-- All that was read was accepted by the output, except for an end of the last read. -/
def Moment.Trails (m : Moment) : Prop :=
  ∃ missing, m.state.peer.delivered = m.state.output.written ++ missing ∧
    (missing = [] ∨ ∃ last, m.reads.getLast? = some last ∧ missing <:+ last)

def Moment.Fits (data : Bytes) (m : Moment) : Prop :=
  match m.stage with
  | .sending => m.state.peer.written = [] ∧ m.reads = [] ∧ m.flushed = [] ∧ m.PassedOn [] []
  | .reading => m.state.peer.written = data ∧ m.PassedOn m.reads [] ∧
      m.flushed = m.state.output.written
  | .writing last rest => m.state.peer.written = data ∧ ∃ earlier passed,
      m.reads = earlier ++ [last] ∧ last = passed ++ rest ∧ m.PassedOn earlier passed
  | .flushing last => m.state.peer.written = data ∧ ∃ earlier,
      m.reads = earlier ++ [last] ∧ m.PassedOn earlier last
  | .ended finish => m.Trails ∧ ∀ summary, finish = .finished summary →
      summary.sent = data.length ∧ summary.received = m.state.received ∧
        m.state.peer.written = data ∧ m.PassedOn m.reads []

/-- What every moment of a relay of `data` keeps. -/
structure Moment.Kept (data : Bytes) (m : Moment) : Prop where
  delivered : m.state.peer.delivered = m.reads.flatten
  reads : ∀ bytes ∈ m.reads, bytes ≠ [] ∧ bytes.length ≤ room
  fits : m.Fits data

theorem Finish.ofEnding_never_ne_finished {β : Type} (ending : Ending β) (summary : Summary) :
    Finish.ofEnding .never ending ≠ .finished summary := by
  cases ending <;> simp [ofEnding]

theorem unsentFinish_ne_finished (settings : Settings) (ending : Ending Unit) (summary : Summary) :
    unsentFinish settings ending ≠ .finished summary := by
  cases ending <;> simp [unsentFinish, Finish.ofEnding]

theorem lastFinish_eq_finished {sent received : Nat} {ending : Ending Bytes} {summary : Summary}
    (h : lastFinish sent received ending = .finished summary) :
    summary.sent = sent ∧ summary.received = received := by
  cases ending with
  | done bytes => cases h; exact ⟨rfl, rfl⟩
  | timedOut => cases h; exact ⟨rfl, rfl⟩
  | failed fault => cases h
  | cancelled => cases h
  | never => cases h

namespace Moment

variable {data : Bytes} {settings : Settings} {m m' : Moment}

theorem trails_of_passedOn {earlier : List Bytes} {passed rest : Bytes}
    (hdelivered : m.state.peer.delivered = m.reads.flatten)
    (hreads : m.reads = earlier ++ [passed ++ rest]) (h : m.PassedOn earlier passed) :
    m.Trails := by
  refine ⟨rest, ?_, .inr ⟨passed ++ rest, ?_, List.suffix_append _ _⟩⟩
  · rw [hdelivered, hreads, h.written, List.flatten_append, List.append_assoc]
    simp
  · rw [hreads, List.getLast?_concat]

theorem trails_of_caught_up (hdelivered : m.state.peer.delivered = m.reads.flatten)
    (h : m.PassedOn m.reads []) : m.Trails :=
  ⟨[], by rw [hdelivered, h.written, List.append_nil, List.append_nil], .inl rfl⟩

theorem fits_of_given_up {ending : Ending Unit} {earlier : List Bytes} {passed rest : Bytes}
    (hstage : m.stage = .ended (.ofEnding .never ending))
    (hdelivered : m.state.peer.delivered = m.reads.flatten)
    (hreads : m.reads = earlier ++ [passed ++ rest]) (h : m.PassedOn earlier passed) :
    m.Fits data := by
  rw [Fits, hstage]
  exact ⟨trails_of_passedOn hdelivered hreads h, fun summary hfinished =>
    absurd hfinished (Finish.ofEnding_never_ne_finished ending summary)⟩

theorem kept_of_next (hk : m.Kept data) (h : Next data settings m m') : m'.Kept data := by
  obtain ⟨hdelivered, hreads, hfits⟩ := hk
  cases h with
  | @sent s later peer reads flushed h =>
    obtain ⟨hwritten, rfl, rfl, hpassed⟩ := hfits
    obtain ⟨accepted, _, hw, hall⟩ := s.peer.send_written data settings.halfClose
      (limit settings.writeTimeout s.clock) s.clock
    have hd := s.peer.send_delivered data settings.halfClose
      (limit settings.writeTimeout s.clock) s.clock
    rw [h] at hw hall hd
    rw [hwritten, List.nil_append, hall rfl] at hw
    exact ⟨hd.trans hdelivered, hreads, hw, hpassed, hpassed.written.symm⟩
  | @unsent s ending later peer reads flushed h hne =>
    obtain ⟨hwritten, rfl, -, hpassed⟩ := hfits
    have hd := s.peer.send_delivered data settings.halfClose
      (limit settings.writeTimeout s.clock) s.clock
    rw [h] at hd
    exact ⟨hd.trans hdelivered, hreads, trails_of_caught_up (hd.trans hdelivered) hpassed,
      fun summary hfinished => absurd hfinished (unsentFinish_ne_finished settings ending summary)⟩
  | @read s bytes later peer reads flushed h hb =>
    obtain ⟨hwritten, hpassed, -⟩ := hfits
    have hd := Link.delivered_of_read h
    refine ⟨?_, ?_, (Link.written_of_read h).trans hwritten, reads, [], rfl, rfl, hpassed⟩
    · rw [hd, hdelivered]
      simp
    · intro bytes' hm
      rcases List.mem_append.1 hm with hm | hm
      · exact hreads bytes' hm
      · cases List.mem_singleton.1 hm
        exact ⟨hb, Link.length_le_of_read h⟩
  | @last s ending later peer reads flushed h hover =>
    obtain ⟨hwritten, hpassed, -⟩ := hfits
    have hd := (Link.delivered_of_last_read h hover).trans hdelivered
    refine ⟨hd, hreads, trails_of_caught_up hd hpassed, fun summary hfinished => ?_⟩
    obtain ⟨hsent, hreceived⟩ := lastFinish_eq_finished hfinished
    exact ⟨hsent, hreceived, (Link.written_of_read h).trans hwritten, hpassed⟩
  | @accepted s last rest later n steps reads flushed hrest h =>
    obtain ⟨hwritten, earlier, passed, rfl, hlast, hpassed⟩ := hfits
    refine ⟨hdelivered, hreads, hwritten, earlier, passed ++ rest.take n, rfl, ?_, ?_⟩
    · rw [hlast, List.append_assoc, List.take_append_drop]
    · exact ⟨by rw [← List.append_assoc, ← hpassed.written]; rfl, hpassed.flushes,
        hpassed.received⟩
  | @written s last rest reads flushed h =>
    obtain ⟨hwritten, earlier, passed, rfl, hlast, hpassed⟩ := hfits
    obtain ⟨accepted, _, hw, hall⟩ := s.output.write_written rest patience s.clock
    rw [hall h, hpassed.written, List.append_assoc, ← hlast] at hw
    exact ⟨hdelivered, hreads, hwritten, earlier, rfl, hw,
      (Link.write_flushes _ _ _ _).trans hpassed.flushes, hpassed.received⟩
  | @unwritten s last rest reads flushed h =>
    obtain ⟨hwritten, earlier, passed, rfl, rfl, hpassed⟩ := hfits
    obtain ⟨accepted, ⟨lacking, rfl⟩, hw, _⟩ := s.output.write_written rest patience s.clock
    rw [hpassed.written, List.append_assoc] at hw
    rw [← List.append_assoc] at hreads hdelivered ⊢
    exact ⟨hdelivered, hreads, fits_of_given_up rfl hdelivered rfl
      ⟨hw, (Link.write_flushes _ _ _ _).trans hpassed.flushes, hpassed.received⟩⟩
  | @flushed s last reads flushed h =>
    obtain ⟨hwritten, earlier, rfl, hpassed⟩ := hfits
    have hf := Link.flush_flushes s.output patience s.clock
    rw [if_pos h] at hf
    refine ⟨hdelivered, hreads, hwritten, ⟨?_, ?_, ?_⟩, rfl⟩
    · refine Eq.trans hpassed.written ?_
      simp
    · rw [List.length_append, ← hpassed.flushes]
      exact hf
    · rw [List.flatten_append, List.length_append, ← hpassed.received]
      simp
  | @unflushed s last reads flushed h =>
    obtain ⟨hwritten, earlier, rfl, hpassed⟩ := hfits
    have hf := Link.flush_flushes s.output patience s.clock
    rw [if_neg h] at hf
    rw [← List.append_nil last] at hreads hdelivered ⊢
    exact ⟨hdelivered, hreads, fits_of_given_up rfl hdelivered rfl
      ⟨hpassed.written, hf.trans hpassed.flushes, hpassed.received⟩⟩

theorem kept_of_reaches (hk : m.Kept data) (h : Reaches data settings m m') : m'.Kept data := by
  induction h with
  | refl => exact hk
  | tail _ hnext ih => exact kept_of_next ih hnext

theorem trails_of_kept (hk : m.Kept data) : m.Trails := by
  obtain ⟨hdelivered, -, hfits⟩ := hk
  obtain ⟨stage, s, reads, flushed⟩ := m
  cases stage with
  | sending =>
    obtain ⟨-, rfl, -, hpassed⟩ := hfits
    exact trails_of_caught_up hdelivered hpassed
  | reading => exact trails_of_caught_up hdelivered hfits.2.1
  | writing last rest =>
    obtain ⟨-, earlier, passed, hreads, rfl, hpassed⟩ := hfits
    exact trails_of_passedOn hdelivered hreads hpassed
  | flushing last =>
    obtain ⟨-, earlier, hreads, hpassed⟩ := hfits
    exact trails_of_passedOn hdelivered (by rw [hreads, List.append_nil]) hpassed
  | ended finish => exact hfits.1

/-- What a relay of `data` shows at any moment. -/
structure Streams (data : Bytes) (m : Moment) : Prop where
  delivered : m.state.peer.delivered = m.reads.flatten
  reads : ∀ bytes ∈ m.reads, bytes ≠ [] ∧ bytes.length ≤ 1024
  trails : ∃ missing, m.state.peer.delivered = m.state.output.written ++ missing ∧
    missing.length ≤ 1024 ∧
    (missing = [] ∨ ∃ last, m.reads.getLast? = some last ∧ missing <:+ last)
  /-- Before a read the output has everything, and was flushed since it got the last of it. -/
  caughtUp : m.stage = .reading → m.state.output.written = m.state.peer.delivered ∧
    m.flushed = m.state.output.written ∧ m.state.output.flushes = m.reads.length
  finished : ∀ summary, m.stage = .ended (.finished summary) →
    summary.sent = data.length ∧ m.state.peer.written = data ∧
    m.state.output.written = m.state.peer.delivered ∧
    summary.received = m.state.peer.delivered.length ∧
    m.state.output.flushes = m.reads.length

theorem caught_up_of_passedOn (hdelivered : m.state.peer.delivered = m.reads.flatten)
    (h : m.PassedOn m.reads []) : m.state.output.written = m.state.peer.delivered := by
  rw [h.written, hdelivered, List.append_nil]

theorem streams_of_kept (hk : m.Kept data) : m.Streams data := by
  obtain ⟨missing, hmissing, hlast⟩ := trails_of_kept hk
  refine ⟨hk.delivered, hk.reads, ⟨missing, hmissing, ?_, hlast⟩, ?_, ?_⟩
  · obtain rfl | ⟨last, hm, hsuffix⟩ := hlast
    · exact Nat.zero_le _
    · exact Nat.le_trans hsuffix.length_le (hk.reads last (List.mem_of_getLast? hm)).2
  · intro hstage
    have hfits := hk.fits
    rw [Fits, hstage] at hfits
    obtain ⟨-, hpassed, hflushed⟩ := hfits
    exact ⟨caught_up_of_passedOn hk.delivered hpassed, hflushed, hpassed.flushes⟩
  · intro summary hstage
    have hfits := hk.fits
    rw [Fits, hstage] at hfits
    obtain ⟨hsent, hreceived, hwritten, hpassed⟩ := hfits.2 summary rfl
    refine ⟨hsent, hwritten, caught_up_of_passedOn hk.delivered hpassed, ?_, hpassed.flushes⟩
    rw [hreceived, hpassed.received, hk.delivered]

def start (peer output : PeerScript) : Moment :=
  ⟨.sending, { clock := {}, peer := { script := peer }, output := { script := output } }, [], []⟩

theorem start_kept (peer output : PeerScript) (data : Bytes) : (start peer output).Kept data :=
  ⟨rfl, fun _ hm => absurd hm List.not_mem_nil, rfl, rfl, rfl, ⟨rfl, rfl, rfl⟩⟩

theorem start_outcome (peer output : PeerScript) (data : Bytes) (settings : Settings) :
    (start peer output).outcome data settings = relay peer output data settings := rfl

theorem of_reaches_of_not_sent {s : State} {ending : Ending Unit} {later : Clock} {peer : Link}
    {reads : List Bytes} {flushed : Bytes}
    (h : s.peer.send data settings.halfClose (limit settings.writeTimeout s.clock) s.clock =
      ⟨ending, later, peer⟩) (hne : ending ≠ .done ())
    (hm : Reaches data settings ⟨.sending, s, reads, flushed⟩ m) :
    m = ⟨.sending, s, reads, flushed⟩ ∨
      m = ⟨.ended (unsentFinish settings ending), { s with clock := later, peer }, reads,
        flushed⟩ := by
  induction hm with
  | refl => exact .inl rfl
  | tail _ hnext ih =>
    obtain rfl | rfl := ih
    · cases hnext with
      | sent h' =>
        rw [h] at h'
        cases h'
        exact absurd rfl hne
      | unsent h' _ =>
        rw [h] at h'
        cases h'
        exact .inr rfl
    · cases hnext

end Moment

open Moment

/-- A relay streams: at each of its moments, of which the last is its outcome, its output has all
that was read but at most an end of the last read, and it has all, flushed, whenever the relay is
to read. If the data cannot be sent, nothing is read and nothing is put out; and if a read fails,
all that was read before is put out. -/
theorem relay_streams (peer output : PeerScript) (data : Bytes) (settings : Settings) :
    (∃ reads flushed, Reaches data settings (start peer output)
      ⟨.ended (relay peer output data settings).1, (relay peer output data settings).2, reads,
        flushed⟩) ∧
    (∀ m, Reaches data settings (start peer output) m →
      m.outcome data settings = relay peer output data settings ∧ m.Streams data) ∧
    (∀ ending later link,
      (start peer output).state.peer.send data settings.halfClose
        (limit settings.writeTimeout {}) {} = ⟨ending, later, link⟩ → ending ≠ .done () →
      relay peer output data settings =
        (unsentFinish settings ending, ⟨later, link, { script := output }, 0⟩) ∧
      link.script.read = peer.read ∧ link.delivered = [] ∧
      ∀ m, Reaches data settings (start peer output) m →
        m.stage ≠ .reading ∧ m.state.output = { script := output }) ∧
    (∀ m fault, Reaches data settings (start peer output) m → m.stage = .reading →
      (m.state.peer.read room (limit settings.idleTimeout m.state.clock) m.state.clock).ending =
        .failed fault →
      (relay peer output data settings).1 = .failed fault ∧
      (relay peer output data settings).2.peer.delivered = m.state.peer.delivered ∧
      (relay peer output data settings).2.output.written = m.state.peer.delivered) := by
  refine ⟨?_, ?_, ?_, ?_⟩
  · exact reaches_ended data settings _ [] []
  · intro m hm
    exact ⟨outcome_of_reaches hm, streams_of_kept (kept_of_reaches (start_kept _ _ _) hm)⟩
  · intro ending later link hsend hne
    have hread := Link.send_script_read (start peer output).state.peer data settings.halfClose
      (limit settings.writeTimeout {}) {}
    have hdelivered := Link.send_delivered (start peer output).state.peer data settings.halfClose
      (limit settings.writeTimeout {}) {}
    rw [hsend] at hread hdelivered
    refine ⟨State.relay_of_not_sent hne hsend, hread, hdelivered, fun m hm => ?_⟩
    obtain rfl | rfl := of_reaches_of_not_sent hsend hne hm
    · exact ⟨Stage.noConfusion, rfl⟩
    · exact ⟨Stage.noConfusion, rfl⟩
  · intro m fault hm hstage hread
    have hcaught := (streams_of_kept (kept_of_reaches (start_kept peer output data) hm)).caughtUp
      hstage
    obtain ⟨stage, s, reads, flushed⟩ := m
    dsimp only at hstage hread hcaught
    subst hstage
    rcases hr : s.peer.read room (limit settings.idleTimeout s.clock) s.clock with
      ⟨ending, later, link⟩
    rw [hr] at hread
    cases hread
    have hover : ∀ bytes : Bytes, (.failed fault : Ending Bytes) = .done bytes → bytes = [] := nofun
    have houtcome := outcome_of_reaches (hm.tail (.last hr hover))
    rw [start_outcome] at houtcome
    rw [← houtcome]
    exact ⟨rfl, Link.delivered_of_last_read hr hover, hcaught.1⟩

/-- An output takes two of three bytes, and the third after a while; then the next read fails. -/
theorem relay_streams_of_partial_write :
    let peer : PeerScript := { read := [.act (.data [7, 8, 9]), .error (.system 104)] }
    let output : PeerScript := { write := [.act 2, .delay 5] }
    (∃ m, Reaches [1] {} (start peer output) m ∧ m.state.peer.delivered = [7, 8, 9] ∧
      m.state.output.written = [7, 8] ∧ m.Streams [1]) ∧
    (relay peer output [1] {}).1 = .failed (.system 104) ∧
    (relay peer output [1] {}).2.output.written = [7, 8, 9] := by
  intro peer output
  obtain ⟨-, hmoments, -, hfailed⟩ := relay_streams peer output [1] {}
  have hread : Reaches [1] {} (start peer output)
      ⟨.writing [7, 8, 9] [7, 8, 9], _, [[7, 8, 9]], []⟩ :=
    (Relation.ReflTransGen.single (.sent rfl)).tail (.read rfl (by decide))
  have hpart := hread.tail (.accepted (by decide) (.pass rfl))
  refine ⟨⟨_, hpart, rfl, rfl, (hmoments _ hpart).2⟩, ?_⟩
  have hflushed := (hpart.tail (.written rfl)).tail (.flushed rfl)
  exact ⟨(hfailed _ _ hflushed rfl rfl).1, (hfailed _ _ hflushed rfl rfl).2.2⟩

end Relay

end WireReplay
