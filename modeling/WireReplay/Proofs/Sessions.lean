import WireReplay.Session
import WireReplay.Proofs.Accepted
import WireReplay.Proofs.Filing

/-!
# The verdict on a replayed corpus

A replay is prepared before anything is connected: the endpoint is made, the settings are checked
and the corpus is loaded, and the first of these that fails is all that comes of the session. A
replay that is over is filed before it is shown. What it is shown as and how the session ends then
agree: the payloads that the verdict counts as failed are those that the overview does not count.
-/

namespace WireReplay

namespace Outcome

theorem isOk_iff {o : Outcome} : o.isOk = true ↔ o = .ok := by
  cases o <;> simp [isOk]

end Outcome

namespace Report

def tally (clean total : Nat) : String := s!"{clean} of {total} payloads completed cleanly"

theorem verdictLine_eq (shows : Bool) (captures : List Capture) :
    ∃ (sign : String) (style : Style), verdictLine shows captures =
      style.paint shows sign ++ " " ++
        style.paint shows (tally (cleanCount captures) captures.length) := by
  by_cases hclean : cleanCount captures = captures.length
  · exact ⟨"✓", boldGreen, if_pos hclean⟩
  · exact ⟨"✗", boldRed, if_neg hclean⟩

theorem overview_tally (shows verbose : Bool) (captures : List Capture) :
    ∃ (above sign : String) (style : Style), overview shows verbose captures =
      above ++ (style.paint shows sign ++ " " ++
        style.paint shows (tally (cleanCount captures) captures.length)) ++ "\n\n" := by
  obtain ⟨sign, style, hverdict⟩ := verdictLine_eq shows captures
  let lines := "" :: captures.flatMap (captureLines shows verbose)
  refine ⟨String.join (lines.map (· ++ "\n")) ++ "\n", sign, style, ?_⟩
  have hlast : String.join (["", verdictLine shows captures, ""].map (· ++ "\n")) =
      "\n" ++ verdictLine shows captures ++ "\n\n" := by
    simp [String.append_assoc]
  rw [← hverdict, overview, List.map_append, String.join_append, hlast]
  simp only [lines, String.append_assoc]

theorem cleanCount_add_failed (captures : List Capture) :
    cleanCount captures + captures.countP (·.outcome ≠ .ok) = captures.length := by
  rw [cleanCount, List.length_eq_countP_add_countP (fun c : Capture => c.outcome.isOk)]
  simp only [Outcome.isOk_iff]

end Report

namespace Session

/-- The endpoint and the payloads of a replay, or the first reason why it cannot be begun. -/
def prepare (s : Surroundings) (config : Configuration) (c : RunCommand) :
    Except Failure (Endpoint × List Payload) := do
  let endpoint ← Endpoint.make c.host c.port
  (c.settings config).validate
  let payloads ← (Corpus.load s.files c.corpus).1
  return (endpoint, payloads)

/-- The path of the summary if the report is filed, or the reason why it cannot be. -/
def filing (s : Surroundings) (output : Option Path) (captures : List Capture) :
    Except Failure (Option Path) :=
  match output with
  | none => .ok none
  | some directory => (Report.file directory s.files captures).result.map some

def announcement : Option Path → String
  | none => ""
  | some summary => s!"Responses written to {summary.display}\n"

theorem filing_none (s : Surroundings) (captures : List Capture) :
    filing s none captures = .ok none := rfl

theorem filing_some (s : Surroundings) (directory : Path) (captures : List Capture) :
    filing s (some directory) captures =
      (Report.file directory s.files captures).result.map some := rfl

variable {s : Surroundings} {config : Configuration} {c : RunCommand}
  {failure : Failure} {endpoint : Endpoint} {payloads : List Payload}
  {account : Replay.Account} {output : Option Path}

theorem replay_of_unprepared (isVerbose : Bool) (h : prepare s config c = .error failure) :
    ∃ log, replay s config isVerbose c = fail s failure log := by
  rcases error_of_bind h with hendpoint | ⟨endpoint, hendpoint, h⟩
  · exact ⟨[], by simp only [replay, hendpoint]⟩
  rcases error_of_bind h with hsettings | ⟨⟨⟩, hsettings, h⟩
  · exact ⟨[], by simp only [replay, hendpoint, hsettings]⟩
  rcases error_of_bind h with hload | ⟨payloads, -, h⟩
  · rcases hcorpus : Corpus.load s.files c.corpus with ⟨loaded, log⟩
    rw [hcorpus] at hload
    cases hload
    exact ⟨log, by simp only [replay, hendpoint, hsettings, hcorpus]⟩
  · cases h

theorem replay_of_prepared (isVerbose : Bool) (h : prepare s config c = .ok (endpoint, payloads)) :
    ∃ log,
      (Replay.run (network s endpoint) (c.settings config) payloads s.cancelAt = none →
        replay s config isVerbose c = { result := none, log, files := s.files }) ∧
      ∀ account,
        Replay.run (network s endpoint) (c.settings config) payloads s.cancelAt = some account →
        replay s config isVerbose c = report s c.output isVerbose log account := by
  obtain ⟨_, hendpoint, h⟩ := ok_of_bind h
  obtain ⟨⟨⟩, hsettings, h⟩ := ok_of_bind h
  obtain ⟨_, hload, h⟩ := ok_of_bind h
  cases h
  rcases hcorpus : Corpus.load s.files c.corpus with ⟨loaded, log⟩
  rw [hcorpus] at hload
  cases hload
  refine ⟨if payloads.isEmpty then
    log ++ [.warn s!"Corpus {c.corpus.display} holds no payloads"] else log, ?_, ?_⟩
  · intro hrun
    simp only [replay, hendpoint, hsettings, hcorpus, hrun]
  · intro account hrun
    simp only [replay, hendpoint, hsettings, hcorpus, hrun]

theorem report_of_not_filed (isVerbose : Bool) (log : List LogLine)
    (h : filing s output account.captures = .error failure) :
    (report s output isVerbose log account).result = some (.error failure) ∧
      (report s output isVerbose log account).output = [] := by
  cases output with
  | none => cases h
  | some directory =>
    rw [filing_some] at h
    cases hfiled : (Report.file directory s.files account.captures).result with
    | error first =>
      rw [hfiled] at h
      cases h
      simp only [report, hfiled, and_self]
    | ok => rw [hfiled] at h; cases h

theorem report_of_filed (isVerbose : Bool) (log : List LogLine) {summary : Option Path}
    (h : filing s output account.captures = .ok summary) :
    (report s output isVerbose log account).result = some (verdict account.captures) ∧
      (report s output isVerbose log account).output = Text.bytes
        (announcement summary ++ Report.overview s.showsStyles isVerbose account.captures) := by
  cases output with
  | none =>
    rw [filing_none] at h
    cases h
    have hannouncement : announcement none = "" := rfl
    rw [hannouncement, String.empty_append]
    exact ⟨rfl, rfl⟩
  | some directory =>
    rw [filing_some] at h
    cases hfiled : (Report.file directory s.files account.captures).result with
    | error => rw [hfiled] at h; cases h
    | ok =>
      rw [hfiled] at h
      cases h
      simp only [report, hfiled, true_and]
      rfl

theorem verdict_eq (captures : List Capture) :
    verdict captures =
      if ∀ capture ∈ captures, capture.outcome = .ok then .ok ()
      else .error (.incomplete (captures.countP (·.outcome ≠ .ok)) captures.length) := by
  have hisOk (capture : Capture) :
      (!capture.outcome.isOk) = decide (capture.outcome ≠ .ok) := by
    rw [Bool.eq_iff_iff, Bool.not_eq_true', decide_eq_true_iff, Bool.eq_false_iff, Ne,
      Outcome.isOk_iff]
  have hzero : captures.countP (·.outcome ≠ .ok) = 0 ↔
      ∀ capture ∈ captures, capture.outcome = .ok := by
    simp [List.countP_eq_zero]
  simp only [verdict, hisOk, hzero]

/-- What comes of a replay. If it cannot be begun, that is the first reason for it, and nothing was
connected to, written or printed. If the run is over and the report cannot be filed, it is the
reason for that, and no overview is printed. Else the overview is printed, and the session succeeds
exactly if all outcomes are good; of the payloads, each of which has its outcome, it then fails with
the number of those that are not among those that the overview counts as completed cleanly. -/
theorem replay_verdict (s : Surroundings) (config : Configuration) (isVerbose : Bool)
    (c : RunCommand) :
    match prepare s config c with
    | .error failure =>
      (replay s config isVerbose c).result = some (.error failure) ∧
        (replay s config isVerbose c).attempts = 0 ∧ (replay s config isVerbose c).links = [] ∧
        (replay s config isVerbose c).files = s.files ∧ (replay s config isVerbose c).output = []
    | .ok (endpoint, payloads) =>
      match Replay.run (network s endpoint) (c.settings config) payloads s.cancelAt with
      | none =>
        (replay s config isVerbose c).result = none ∧
          (replay s config isVerbose c).files = s.files ∧ (replay s config isVerbose c).output = []
      | some account =>
        match filing s c.output account.captures with
        | .error failure =>
          (replay s config isVerbose c).result = some (.error failure) ∧
            (replay s config isVerbose c).output = []
        | .ok summary =>
          ∃ failed above sign style,
            failed = account.captures.countP (·.outcome ≠ .ok) ∧
            (replay s config isVerbose c).result =
              some (if ∀ capture ∈ account.captures, capture.outcome = .ok then .ok ()
                else .error (.incomplete failed payloads.length)) ∧
            (replay s config isVerbose c).output = Text.bytes
              (announcement summary ++
                Report.overview s.showsStyles isVerbose account.captures) ∧
            Report.overview s.showsStyles isVerbose account.captures =
              above ++ (Style.paint style s.showsStyles sign ++ " " ++
                style.paint s.showsStyles
                  (Report.tally (payloads.length - failed) payloads.length)) ++ "\n\n" := by
  cases hprepare : prepare s config c with
  | error failure =>
    obtain ⟨log, hreplay⟩ := replay_of_unprepared isVerbose hprepare
    rw [hreplay]
    exact ⟨rfl, rfl, rfl, rfl, rfl⟩
  | ok ready =>
    obtain ⟨endpoint, payloads⟩ := ready
    obtain ⟨log, hnever, hover⟩ := replay_of_prepared isVerbose hprepare
    dsimp only
    cases hrun : Replay.run (network s endpoint) (c.settings config) payloads s.cancelAt with
    | none =>
      rw [hnever hrun]
      exact ⟨rfl, rfl, rfl⟩
    | some account =>
      rw [hover account hrun]
      dsimp only
      cases hfiling : filing s c.output account.captures with
      | error failure => exact report_of_not_filed isVerbose log hfiling
      | ok summary =>
        have hlength : account.captures.length = payloads.length := by
          rw [← List.length_map, Replay.names_of_run hrun, List.length_map]
        have hclean := Report.cleanCount_add_failed account.captures
        obtain ⟨hresult, houtput⟩ := report_of_filed isVerbose log hfiling
        obtain ⟨above, sign, style, htally⟩ :=
          Report.overview_tally s.showsStyles isVerbose account.captures
        refine ⟨_, above, sign, style, rfl, ?_, houtput, ?_⟩
        · rw [hresult, verdict_eq, hlength]
        · rw [htally, ← hlength, ← hclean, Nat.add_sub_cancel]

end Session

end WireReplay
