import Mathlib.Data.List.TakeWhile
import WireReplay.Proofs.Digits
import WireReplay.Proofs.Phases
import WireReplay.Session

/-!
# Endpoints and the texts for them

A host is given with blanks around it, and an address with brackets inside of these blanks. Whether
anything is given is looked at before the brackets are taken off, so that a pair of brackets with
only blanks in it is taken for a host. Whatever the host is, an endpoint can be told from the text
that shows it: the port stands behind the last colon, and brackets are around the host exactly if
there is a colon in front of the last one.
-/

namespace WireReplay

namespace Text

def AllBlank (s : List Char) : Prop := ∀ c ∈ s, isBlank c = true

variable {s front core behind : List Char}

theorem allBlank_append : AllBlank (front ++ behind) ↔ AllBlank front ∧ AllBlank behind :=
  List.forall_mem_append

theorem dropWhile_eq_trim_append (s : List Char) :
    ∃ behind, AllBlank behind ∧ s.dropWhile isBlank = trim s ++ behind := by
  refine ⟨((s.dropWhile isBlank).reverse.takeWhile isBlank).reverse, ?_, ?_⟩
  · exact fun c hc => List.mem_takeWhile_imp (List.mem_reverse.1 hc)
  · rw [trim, ← List.reverse_append, List.takeWhile_append_dropWhile, List.reverse_reverse]

theorem exists_around_trim (s : List Char) :
    ∃ front behind, AllBlank front ∧ AllBlank behind ∧ s = front ++ trim s ++ behind := by
  obtain ⟨behind, hbehind, hrest⟩ := dropWhile_eq_trim_append s
  refine ⟨s.takeWhile isBlank, behind, fun c hc => List.mem_takeWhile_imp hc, hbehind, ?_⟩
  rw [List.append_assoc, ← hrest, List.takeWhile_append_dropWhile]

theorem isBlank_of_head?_dropWhile {c : Char} (h : c ∈ (s.dropWhile isBlank).head?) :
    isBlank c = false := by
  have hnot := List.head?_dropWhile_not isBlank s
  rw [Option.mem_def.1 h] at hnot
  simpa using hnot

theorem isBlank_of_head?_trim {c : Char} (h : c ∈ (trim s).head?) : isBlank c = false := by
  obtain ⟨behind, -, hrest⟩ := dropWhile_eq_trim_append s
  have hfirst : c ∈ (s.dropWhile isBlank).head? := by
    rw [hrest, List.head?_append, Option.mem_def.1 h]
    rfl
  exact isBlank_of_head?_dropWhile hfirst

theorem isBlank_of_getLast?_trim {c : Char} (h : c ∈ (trim s).getLast?) : isBlank c = false := by
  rw [trim, List.getLast?_reverse] at h
  exact isBlank_of_head?_dropWhile h

theorem trim_of_around (hfront : AllBlank front) (hbehind : AllBlank behind)
    (hfirst : ∀ c ∈ core.head?, isBlank c = false)
    (hlast : ∀ c ∈ core.getLast?, isBlank c = false) : trim (front ++ core ++ behind) = core := by
  cases core with
  | nil =>
    have hblank := List.dropWhile_eq_nil_iff.2 (allBlank_append.2 ⟨hfront, hbehind⟩)
    rw [List.append_nil, trim, hblank]
    rfl
  | cons c rest =>
    have hfirst' : ∀ d ∈ (c :: rest ++ behind).head?, isBlank d = false := hfirst
    have hdrop : (front ++ (c :: rest ++ behind)).dropWhile isBlank = c :: rest ++ behind :=
      (takeWhile_append_of_ends hfront hfirst').2
    have hback : (behind.reverse ++ (c :: rest).reverse).dropWhile isBlank = (c :: rest).reverse :=
      (takeWhile_append_of_ends (fun d hd => hbehind d (List.mem_reverse.1 hd))
        (by rwa [List.head?_reverse])).2
    rw [List.append_assoc, trim, hdrop, List.reverse_append, hback, List.reverse_reverse]

theorem trim_eq_nil_iff : trim s = [] ↔ AllBlank s := by
  constructor
  · intro h
    obtain ⟨front, behind, hfront, hbehind, hs⟩ := exists_around_trim s
    rw [h, List.append_nil] at hs
    rw [hs]
    exact allBlank_append.2 ⟨hfront, hbehind⟩
  · intro h
    rw [trim, List.dropWhile_eq_nil_iff.2 h]
    rfl

end Text

open Text

namespace Endpoint

/-- The text gives this host: in a pair of brackets, or without one, and with blanks around it. -/
inductive Gives : (text host : List Char) → Prop
  | bracketed {front host behind : List Char} (hfront : AllBlank front) (hbehind : AllBlank behind) :
      Gives (front ++ '[' :: (host ++ ']' :: behind)) host
  | bare {front host behind : List Char} (hfront : AllBlank front) (hbehind : AllBlank behind)
      (hfirst : ∀ c ∈ host.head?, isBlank c = false)
      (hlast : ∀ c ∈ host.getLast?, isBlank c = false)
      (hopen : ∀ inner, host ≠ '[' :: (inner ++ [']'])) : Gives (front ++ host ++ behind) host

theorem unbracket_enclosed (inner : List Char) : unbracket ('[' :: (inner ++ [']'])) = inner := by
  rw [unbracket, if_pos List.getLast?_concat, List.dropLast_concat]

theorem unbracket_of_open {host : List Char} (h : ∀ inner, host ≠ '[' :: (inner ++ [']'])) :
    unbracket host = host := by
  unfold unbracket
  split
  · refine if_neg fun hlast => ?_
    obtain ⟨inner, rfl⟩ := List.getLast?_eq_some_iff.1 hlast
    exact h inner rfl
  · rfl

theorem gives_iff {text host : List Char} : Gives text host ↔ host = unbracket (trim text) := by
  constructor
  · intro h
    cases h with
    | @bracketed front host behind hfront hbehind =>
      have hfirst : ∀ c ∈ ('[' :: (host ++ [']'])).head?, isBlank c = false := by
        rintro c ⟨⟩
        decide
      have hlast : ∀ c ∈ ('[' :: (host ++ [']'])).getLast?, isBlank c = false := by
        rw [← List.cons_append, List.getLast?_concat]
        rintro c ⟨⟩
        decide
      have htrim := trim_of_around hfront hbehind hfirst hlast
      rw [List.append_assoc, List.cons_append, List.append_assoc] at htrim
      exact (unbracket_enclosed host ▸ congrArg unbracket htrim).symm
    | bare hfront hbehind hfirst hlast hopen =>
      rw [trim_of_around hfront hbehind hfirst hlast, unbracket_of_open hopen]
  · rintro rfl
    obtain ⟨front, behind, hfront, hbehind, htext⟩ := exists_around_trim text
    by_cases h : ∃ inner, trim text = '[' :: (inner ++ [']'])
    · obtain ⟨inner, hinner⟩ := h
      rw [hinner, List.append_assoc, List.cons_append, List.append_assoc] at htext
      rw [hinner, unbracket_enclosed, htext]
      exact .bracketed hfront hbehind
    · have hopen := not_exists.1 h
      have hgives := Gives.bare hfront hbehind (fun _ => isBlank_of_head?_trim)
        (fun _ => isBlank_of_getLast?_trim) hopen
      rw [← htext] at hgives
      rwa [unbracket_of_open hopen]

theorem make_of_blank {host : String} (h : AllBlank host.toList) (port : UInt16) :
    make host port = .error (.invalidEndpoint "host must not be empty") := by
  rw [make, trim_eq_nil_iff.2 h]
  rfl

theorem make_of_not_blank {host : String} (h : ¬ AllBlank host.toList) (port : UInt16) :
    make host port = if port = 0 then
        .error (.invalidEndpoint "port must be in the range 1-65535")
      else .ok ⟨String.ofList (unbracket (trim host.toList)), port⟩ := by
  have hempty : (trim host.toList).isEmpty ≠ true := by
    rwa [ne_eq, List.isEmpty_iff, trim_eq_nil_iff]
  exact if_neg hempty

/-- The host that a text gives is blank exactly if the text is, or has only blanks in a pair of
brackets. -/
theorem allBlank_iff_of_gives {text host : List Char} (h : Gives text host)
    (htext : ¬ AllBlank text) :
    AllBlank host ↔ ∃ front inner behind, AllBlank front ∧ AllBlank inner ∧ AllBlank behind ∧
      text = front ++ '[' :: (inner ++ ']' :: behind) := by
  constructor
  · intro hhost
    cases h with
    | bracketed hfront hbehind => exact ⟨_, _, _, hfront, hhost, hbehind, rfl⟩
    | bare hfront hbehind _ _ _ =>
      exact absurd (allBlank_append.2 ⟨allBlank_append.2 ⟨hfront, hhost⟩, hbehind⟩) htext
  · rintro ⟨front, inner, behind, hfront, hinner, hbehind, rfl⟩
    rwa [gives_iff.1 h, ← gives_iff.1 (Gives.bracketed hfront hbehind)]

/-- A host and a port make an endpoint exactly if the port is not zero and the host, with whatever
brackets it has, is not blank; else they are refused, the host first. The host of the endpoint is
the one that the text gives, and it is blank exactly if the text has only blanks in a pair of
brackets. -/
theorem make_gives (host : String) (port : UInt16) :
    match make host port with
    | .ok e =>
      port ≠ 0 ∧ ¬ AllBlank host.toList ∧ e.port = port ∧ Gives host.toList e.host.toList ∧
        (AllBlank e.host.toList ↔ ∃ front inner behind,
          AllBlank front ∧ AllBlank inner ∧ AllBlank behind ∧
            host.toList = front ++ '[' :: (inner ++ ']' :: behind))
    | .error failure =>
      AllBlank host.toList ∧ failure = .invalidEndpoint "host must not be empty" ∨
        ¬ AllBlank host.toList ∧ port = 0 ∧
          failure = .invalidEndpoint "port must be in the range 1-65535" := by
  by_cases hblank : AllBlank host.toList
  · rw [make_of_blank hblank]
    exact .inl ⟨hblank, rfl⟩
  rw [make_of_not_blank hblank]
  by_cases hport : port = 0
  · rw [if_pos hport]
    exact .inr ⟨hblank, hport, rfl⟩
  · rw [if_neg hport]
    dsimp only
    rw [String.toList_ofList]
    have hgives : Gives host.toList (unbracket (trim host.toList)) := gives_iff.2 rfl
    exact ⟨hport, hblank, rfl, hgives, allBlank_iff_of_gives hgives hblank⟩

/-- A pair of brackets is taken for a host, though nothing is in it. -/
theorem make_of_empty_brackets :
    make "[]" 80 = .ok ⟨"", 80⟩ ∧ Gives "[]".toList "".toList ∧ AllBlank "".toList := by
  have hblank : AllBlank "".toList := fun c hc => absurd hc List.not_mem_nil
  have htext : "[]".toList = [] ++ '[' :: ("".toList ++ ']' :: []) := by rfl
  refine ⟨by rfl, ?_, hblank⟩
  rw [htext]
  exact .bracketed hblank hblank

/-- The endpoint that is shown as this text. -/
def ofDisplay? (text : String) : Option Endpoint :=
  let back := text.toList.reverse
  let port := (back.takeWhile (· ≠ ':')).reverse
  let shown := (back.dropWhile (· ≠ ':')).tail.reverse
  let host := if ':' ∈ shown then shown.tail.dropLast else shown
  (CommandLine.port? (String.ofList port)).map (⟨String.ofList host, ·⟩)

def shownHost (host : List Char) : List Char :=
  if ':' ∈ host then '[' :: (host ++ [']']) else host

theorem toList_display (e : Endpoint) :
    e.display.toList = shownHost e.host.toList ++ ':' :: Nat.toDigits 10 e.port.toNat := by
  unfold display shownHost
  split <;> simp [toString]

theorem colon_mem_shownHost_iff (host : List Char) : ':' ∈ shownHost host ↔ ':' ∈ host := by
  unfold shownHost
  split
  · simp
  · rfl

theorem host_of_shownHost (host : List Char) :
    (if ':' ∈ shownHost host then (shownHost host).tail.dropLast else shownHost host) = host := by
  by_cases h : ':' ∈ host
  · rw [if_pos ((colon_mem_shownHost_iff host).2 h), shownHost, if_pos h, List.tail_cons,
      List.dropLast_concat]
  · rw [if_neg (mt (colon_mem_shownHost_iff host).1 h), shownHost, if_neg h]

/-- An endpoint is told from the text that shows it. -/
theorem ofDisplay?_display (e : Endpoint) : ofDisplay? e.display = some e := by
  have hdigits : ∀ c ∈ (Nat.toDigits 10 e.port.toNat).reverse, decide (c ≠ ':') = true := by
    intro c hc
    have hdigit : c.isDigit = true := isDigit_of_mem_toDigits (List.mem_reverse.1 hc)
    exact decide_eq_true (ne_of_test hdigit rfl)
  have hback : e.display.toList.reverse = (Nat.toDigits 10 e.port.toNat).reverse ++
      ':' :: (shownHost e.host.toList).reverse := by
    rw [toList_display, List.reverse_append, List.reverse_cons, List.append_assoc]
    rfl
  have hcolon : ∀ c ∈ (':' :: (shownHost e.host.toList).reverse).head?,
      decide (c ≠ ':') = false := by
    rintro c ⟨⟩
    rfl
  obtain ⟨htake, hdrop⟩ := takeWhile_append_of_ends hdigits hcolon
  have hport : String.ofList (Nat.toDigits 10 e.port.toNat) = toString e.port.toNat := by
    rw [← toList_toString, String.ofList_toList]
  unfold ofDisplay?
  dsimp only
  rw [hback, htake, hdrop, List.tail_cons, List.reverse_reverse, List.reverse_reverse,
    host_of_shownHost, hport, CommandLine.port?_toString, String.ofList_toList]
  rfl

theorem message_connectFailed (shown : String) (fault : Fault) :
    (Failure.connectFailed shown fault).message =
      "Failed to connect to " ++ shown ++ (": " ++ fault.describe) := by
  unfold Failure.message
  dsimp only
  rw [← String.append_assoc]
  rfl

theorem message_connectTimedOut (shown : String) (millis : Nat) :
    (Failure.connectTimedOut shown millis).message =
      "Connection to " ++ shown ++ s!" timed out after {millis} ms" := by
  unfold Failure.message
  dsimp only
  rw [← String.append_assoc, ← String.append_assoc]
  rfl

theorem error_of_refused_at {s : Surroundings} {e : Endpoint} {attempt : Nat} {timeout : Duration}
    {clock later : Clock} {verdict : Verdict}
    (h : (Session.network s e).dial attempt timeout clock = (.refused verdict, later))
    (hcancelled : verdict ≠ .cancelled) :
    ∃ front behind, verdict.error = some (front ++ e.display ++ behind) := by
  rw [Network.dial_eq] at h
  have hverdict := congrArg Prod.fst h
  generalize ((Session.network s e).dialing attempt timeout clock).ending = ending at hverdict
  cases ending with
  | failed fault =>
    cases hverdict
    exact ⟨_, _, congrArg some (message_connectFailed e.display fault)⟩
  | timedOut =>
    cases hverdict
    exact ⟨_, _, congrArg some (message_connectTimedOut e.display timeout.boundedMillis)⟩
  | cancelled =>
    cases hverdict
    exact absurd rfl hcancelled
  | done => cases hverdict
  | never => cases hverdict

/-- An endpoint is told from the text that shows it, so no other endpoint is shown like that. A
session calls its target by this text, and whenever an attempt to connect is refused, the text is
part of the error. -/
theorem display_tells (s : Surroundings) (e : Endpoint) :
    ofDisplay? e.display = some e ∧
      (∀ e' : Endpoint, e'.display = e.display → e'.host = e.host ∧ e'.port = e.port) ∧
      (Session.network s e).target = e.display ∧
      ∀ attempt timeout clock later verdict,
        (Session.network s e).dial attempt timeout clock = (.refused verdict, later) →
        verdict ≠ .cancelled →
        ∃ front behind, verdict.error = some (front ++ e.display ++ behind) := by
  refine ⟨ofDisplay?_display e, ?_, rfl, fun _ _ _ _ _ => error_of_refused_at⟩
  intro e' hsame
  have htold := ofDisplay?_display e'
  rw [hsame, ofDisplay?_display e] at htold
  cases htold
  exact ⟨rfl, rfl⟩

/-- An address that is given in two ways, and one that begins with a bracket of its own. -/
theorem display_tells_of_brackets :
    make " [::1] " 80 = .ok ⟨"::1", 80⟩ ∧ make "::1" 80 = .ok ⟨"::1", 80⟩ ∧
      make "[[::1]:8]" 80 = .ok ⟨"[::1]:8", 80⟩ ∧
      display ⟨"[::1]:8", 80⟩ = "[[::1]:8]:80" ∧
      ofDisplay? "[[::1]:8]:80" = some ⟨"[::1]:8", 80⟩ ∧
      (∀ e : Endpoint, e.display = display ⟨"[::1]:8", 80⟩ → e.host = "[::1]:8" ∧ e.port = 80) ∧
      ∃ front behind, Verdict.error (.connectTimedOut "[[::1]:8]:80" 0) =
        some (front ++ display ⟨"[::1]:8", 80⟩ ++ behind) := by
  have hdisplay : display ⟨"[::1]:8", 80⟩ = "[[::1]:8]:80" := by decide +kernel
  let s : Surroundings := { files := {}, peers := fun _ => [{ connect := [.hang] }] }
  obtain ⟨htold, hsame, -, herror⟩ := display_tells s ⟨"[::1]:8", 80⟩
  rw [hdisplay] at htold
  refine ⟨by rfl, by rfl, by rfl, hdisplay, htold, hsame, ?_⟩
  refine herror 0 (.ofMillis 0) {} {} _ ?_ (by simp)
  rw [← hdisplay]
  rfl

end Endpoint

end WireReplay
