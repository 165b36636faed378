import Mathlib.Data.List.TakeWhile
import WireReplay.Proofs.Accepted
import WireReplay.Proofs.Decoding
import WireReplay.Proofs.Digits
import WireReplay.Proofs.Entries

/-!
# Command lines that say an invocation

Whatever can be asked for can be said on a command line: the options by their long names, each with
its value behind an equals sign, the ones that all commands share in front of the command or behind
it, and behind a double dash the arguments without names. In whatever order the options stand, the
line is understood as what was to be said, even if an argument looks like an option.
-/

namespace WireReplay

namespace CommandLine

def Slot.longName : Slot → String
  | config => "config"
  | verbose => "verbose"
  | help => "help"
  | version => "version"
  | connectTimeout => "connect-timeout-ms"
  | readTimeout => "read-timeout-ms"
  | writeTimeout => "write-timeout-ms"
  | idleTimeout => "idle-timeout-ms"
  | reuseConnection => "reuse-connection"
  | halfClose => "half-close"
  | output => "output"
  | host => "host"
  | port => "port"
  | corpus => "corpus"

def Slot.options : List Slot :=
  [config, verbose, connectTimeout, readTimeout, writeTimeout, idleTimeout, reuseConnection,
    halfClose, output]

def Slot.arguments : List Slot := [host, port, corpus]

/-- The word by which an option is set. -/
def optionWord (entry : Slot × Bytes) : Bytes :=
  dash :: dash :: (Text.bytes entry.1.longName ++
    if entry.1.isFlag then [] else equals :: entry.2)

/-- The options of a level, except those that stop the line. -/
def Level.options (level : Level) : List Slot :=
  (level.longNames.map (·.2)).filter fun slot => slot ≠ .help ∧ slot ≠ .version

def numeral (n : Nat) : Bytes := Text.bytes (toString n)

/-- A flag is said without a value, or not at all. -/
def flag (isRaised : Bool) : Option Bytes := if isRaised then some [] else none

end CommandLine

open CommandLine

namespace RunCommand

/-- What is said for each slot. -/
def value? (c : RunCommand) : Slot → Option Bytes
  | .host => some (Text.bytes c.host)
  | .port => some (numeral c.port.toNat)
  | .corpus => some c.corpus
  | .connectTimeout => c.connectTimeout.map numeral
  | .readTimeout => c.readTimeout.map numeral
  | .writeTimeout => c.writeTimeout.map numeral
  | .reuseConnection => flag c.reuseConnection
  | .halfClose => flag c.halfClose
  | .output => c.output
  | _ => none

end RunCommand

namespace SendCommand

def value? (c : SendCommand) : Slot → Option Bytes
  | .host => some (Text.bytes c.host)
  | .port => some (numeral c.port.toNat)
  | .connectTimeout => c.connectTimeout.map numeral
  | .idleTimeout => c.idleTimeout.map numeral
  | .halfClose => flag c.halfClose
  | _ => none

end SendCommand

/-- The timeout, if there is one, is not below this one and a number of 64 bits. -/
def TimeoutFrom (least : Nat) (timeout : Option Nat) : Prop :=
  ∀ n, timeout = some n → least ≤ n ∧ n < UInt64.size

def NoEmptyPath (path : Option Path) : Prop := ∀ p, path = some p → p ≠ []

/-- All values are in the ranges of their options. -/
structure RunCommand.IsSayable (c : RunCommand) : Prop where
  corpus : c.corpus ≠ []
  connectTimeout : TimeoutFrom 1 c.connectTimeout
  readTimeout : TimeoutFrom 1 c.readTimeout
  writeTimeout : TimeoutFrom 1 c.writeTimeout
  output : NoEmptyPath c.output

structure SendCommand.IsSayable (c : SendCommand) : Prop where
  connectTimeout : TimeoutFrom 1 c.connectTimeout
  idleTimeout : TimeoutFrom 0 c.idleTimeout

namespace Command

def level : Command → CommandLine.Level
  | run _ => .run
  | send _ => .send

def word : Command → Bytes
  | run _ => Text.bytes "run"
  | send _ => Text.bytes "send"

def value? : Command → Slot → Option Bytes
  | run c => c.value?
  | send c => c.value?

def IsSayable : Command → Prop
  | run c => c.IsSayable
  | send c => c.IsSayable

end Command

namespace Invocation

def value? (i : Invocation) : Slot → Option Bytes
  | .config => i.config
  | .verbose => flag i.isVerbose
  | slot => i.command.value? slot

structure IsSayable (i : Invocation) : Prop where
  command : i.command.IsSayable
  config : NoEmptyPath i.config

def options (i : Invocation) : List (Slot × Bytes) := entriesOf i.value? Slot.options

def arguments (i : Invocation) : List (Slot × Bytes) := entriesOf i.value? Slot.arguments

/-- The line that says an invocation with these options in front of the command and behind it. -/
def line (i : Invocation) (front back : List (Slot × Bytes)) : List Bytes :=
  front.map optionWord ++ i.command.word ::
    (back.map optionWord ++ [dash, dash] :: i.arguments.map (·.2))

end Invocation

namespace CommandLine

/-! ## What slots take -/

/-- An option or an argument can be said with this value. -/
structure Slot.Takes (slot : Slot) (value : Bytes) : Prop where
  check : slot.check value = none
  bare : slot.isFlag = true → value = []

theorem decode?_numeral (n : Nat) : Text.decode? (numeral n) = some (toString n) :=
  Text.decode?_bytes _

variable {slot : Slot} {value : Bytes}

theorem Slot.takes_host (host : String) : Slot.host.Takes (Text.bytes host) where
  check := by simp only [Slot.check, Text.decode?_bytes, if_true]
  bare := nofun

theorem Slot.takes_port (port : UInt16) : Slot.port.Takes (numeral port.toNat) where
  check := by simp only [Slot.check, decode?_numeral, port?_toString, Option.isSome_some, if_true]
  bare := nofun

theorem Slot.takes_timeout {timeout : Option Nat} (hslot : slot.IsTimeout)
    (h : TimeoutFrom 1 timeout) (hv : timeout.map numeral = some value) : slot.Takes value := by
  obtain ⟨n, hn, rfl⟩ := Option.map_eq_some_iff.1 hv
  obtain ⟨hpos, hlt⟩ := h n hn
  constructor
  · rw [Slot.check_timeout hslot, decode?_numeral, Option.elim_some, count?_toString hlt]
    exact if_pos (decide_eq_true hpos)
  · rcases hslot with rfl | rfl | rfl <;> nofun

theorem Slot.takes_idleTimeout {timeout : Option Nat} (h : TimeoutFrom 0 timeout)
    (hv : timeout.map numeral = some value) : Slot.idleTimeout.Takes value := by
  obtain ⟨n, hn, rfl⟩ := Option.map_eq_some_iff.1 hv
  refine ⟨?_, nofun⟩
  simp only [Slot.check, decode?_numeral, count?_toString (h n hn).2, Option.isSome_some, if_true]

theorem eq_nil_of_flag {isRaised : Bool} (hv : flag isRaised = some value) : value = [] := by
  cases isRaised <;> cases hv
  rfl

end CommandLine

theorem RunCommand.IsSayable.takes {c : RunCommand} (h : c.IsSayable) {slot : Slot} {value : Bytes}
    (hv : c.value? slot = some value) : slot.Takes value := by
  cases slot with
  | host => cases hv; exact Slot.takes_host c.host
  | port => cases hv; exact Slot.takes_port c.port
  | corpus => cases hv; exact ⟨if_neg h.corpus, nofun⟩
  | connectTimeout => exact Slot.takes_timeout (.inl rfl) h.connectTimeout hv
  | readTimeout => exact Slot.takes_timeout (.inr (.inl rfl)) h.readTimeout hv
  | writeTimeout => exact Slot.takes_timeout (.inr (.inr rfl)) h.writeTimeout hv
  | reuseConnection => exact ⟨rfl, fun _ => eq_nil_of_flag hv⟩
  | halfClose => exact ⟨rfl, fun _ => eq_nil_of_flag hv⟩
  | output => exact ⟨if_neg (h.output value hv), nofun⟩
  | _ => cases hv

theorem SendCommand.IsSayable.takes {c : SendCommand} (h : c.IsSayable) {slot : Slot}
    {value : Bytes} (hv : c.value? slot = some value) : slot.Takes value := by
  cases slot with
  | host => cases hv; exact Slot.takes_host c.host
  | port => cases hv; exact Slot.takes_port c.port
  | connectTimeout => exact Slot.takes_timeout (.inl rfl) h.connectTimeout hv
  | idleTimeout => exact Slot.takes_idleTimeout h.idleTimeout hv
  | halfClose => exact ⟨rfl, fun _ => eq_nil_of_flag hv⟩
  | _ => cases hv

theorem Command.IsSayable.takes {c : Command} (h : c.IsSayable) {slot : Slot} {value : Bytes}
    (hv : c.value? slot = some value) : slot.Takes value := by
  cases c with
  | run c => exact RunCommand.IsSayable.takes h hv
  | send c => exact SendCommand.IsSayable.takes h hv

theorem Invocation.IsSayable.takes {i : Invocation} (h : i.IsSayable) {slot : Slot} {value : Bytes}
    (hv : i.value? slot = some value) : slot.Takes value := by
  cases slot with
  | config => exact ⟨if_neg (h.config value hv), nofun⟩
  | verbose => exact ⟨rfl, fun _ => eq_nil_of_flag hv⟩
  | _ => exact h.command.takes hv

namespace CommandLine

/-! ## Options -/

theorem long?_longName (level : Level) :
    ∀ slot ∈ level.options, level.long? (Text.bytes slot.longName) = some slot := by
  cases level <;> decide

theorem equals_not_mem_longName (slot : Slot) : equals ∉ Text.bytes slot.longName := by
  cases slot <;> decide

theorem longName_ne_nil (slot : Slot) : Text.bytes slot.longName ≠ [] := by
  cases slot <;> decide

theorem ne_equals_of_not_mem {name : Bytes} (h : equals ∉ name) :
    ∀ b ∈ name, decide (b ≠ equals) = true :=
  fun _ hb => decide_eq_true fun he => h (he ▸ hb)

theorem splitValue_of_bare {name : Bytes} (h : equals ∉ name) : splitValue name = (name, none) := by
  rw [splitValue, List.dropWhile_eq_nil_iff.2 (ne_equals_of_not_mem h)]

theorem splitValue_of_value {name : Bytes} (h : equals ∉ name) (value : Bytes) :
    splitValue (name ++ equals :: value) = (name, some value) := by
  have hend : ∀ b ∈ (equals :: value).head?, decide (b ≠ equals) = false := by
    rintro b ⟨⟩
    rfl
  obtain ⟨htake, hdrop⟩ := takeWhile_append_of_ends (ne_equals_of_not_mem h) hend
  rw [splitValue, htake, hdrop]

variable {level : Level} {slot : Slot} {value : Bytes} {t : Taken}

theorem Taken.settle_of_no_pending (h : t.pending = none) : t.settle = .ok t := by
  rw [settle, h]

theorem Taken.give_of_new (hnew : t.isGiven slot = false) (hcheck : slot.check value = none) :
    t.give slot value = .ok { t with given := t.given ++ [(slot, value)] } := by
  rw [give, hnew, hcheck]
  rfl

theorem Taken.raise_eq_give (hslot : slot ∈ level.options) (hpending : t.pending = none) :
    t.raise slot = t.give slot [] := by
  have hstop : slot ≠ .help ∧ slot ≠ .version := of_decide_eq_true (List.mem_filter.1 hslot).2
  rw [raise, settle_of_no_pending hpending]
  cases slot with
  | help => exact absurd rfl hstop.1
  | version => exact absurd rfl hstop.2
  | _ => rfl

theorem Taken.attach_eq_give (hpending : t.pending = none) (slot : Slot) (value : Bytes) :
    t.attach slot value = t.give slot value := by
  rw [attach, settle_of_no_pending hpending]
  rfl

theorem takeLong_of_option (hslot : slot ∈ level.options) (htakes : slot.Takes value)
    (hpending : t.pending = none) :
    takeLong level t (Text.bytes slot.longName ++
      if slot.isFlag then [] else equals :: value) = t.give slot value := by
  have hlong := long?_longName level slot hslot
  have hname := equals_not_mem_longName slot
  by_cases hflag : slot.isFlag = true
  · rw [if_pos hflag, List.append_nil, takeLong, splitValue_of_bare hname, htakes.bare hflag]
    dsimp only
    rw [hlong]
    exact (if_pos hflag).trans (Taken.raise_eq_give hslot hpending)
  · rw [if_neg hflag, takeLong, splitValue_of_value hname]
    dsimp only
    rw [hlong]
    exact (if_neg hflag).trans (Taken.attach_eq_give hpending slot value)

theorem take_of_dashes (hplain : t.isPlain = false) {rest : Bytes} (hrest : rest ≠ []) :
    take level t (dash :: dash :: rest) = takeLong level t rest := by
  have hlong : dash :: dash :: rest ≠ [dash, dash] := by simpa using hrest
  unfold take
  rw [if_neg (by simp [hplain]), if_neg hlong]
  rfl

/-- A word for an option sets it. -/
theorem take_optionWord (hslot : slot ∈ level.options) (htakes : slot.Takes value)
    (hpending : t.pending = none) (hplain : t.isPlain = false) (hnew : t.isGiven slot = false) :
    take level t (optionWord (slot, value)) =
      .ok { t with given := t.given ++ [(slot, value)] } := by
  have hword : (Text.bytes slot.longName ++ if slot.isFlag then [] else equals :: value) ≠ [] :=
    List.append_ne_nil_of_left_ne_nil (longName_ne_nil slot) _
  rw [optionWord, take_of_dashes hplain hword, takeLong_of_option hslot htakes hpending,
    Taken.give_of_new hnew htakes.check]

theorem Taken.value?_of_not_mem (h : slot ∉ t.given.map (·.1)) : t.value? slot = none := by
  rw [value?, List.lookup_eq_none_iff]
  intro entry hentry
  have hne : slot ≠ entry.1 := fun he => h (he ▸ List.mem_map_of_mem hentry)
  simpa using hne

theorem isGiven_of_nodup {before rest : List (Slot × Bytes)} {entry : Slot × Bytes}
    (h : ((before ++ entry :: rest).map (·.1)).Nodup) (ht : t.given = before) :
    t.isGiven entry.1 = false := by
  rw [List.map_append, List.map_cons] at h
  have hnot : entry.1 ∉ t.given.map (·.1) := fun hm =>
    (List.nodup_append.1 h).2.2 entry.1 (ht ▸ hm) entry.1 List.mem_cons_self rfl
  rw [Taken.isGiven, Taken.value?_of_not_mem hnot]
  rfl

theorem bind_of_ok {ε α β : Type} {x : Except ε α} {a : α} (h : x = .ok a) (f : α → Except ε β) :
    (x >>= f) = f a := by
  rw [h]
  rfl

theorem foldlM_take_options {before entries : List (Slot × Bytes)}
    (hentries : ∀ entry ∈ entries, entry.1 ∈ level.options ∧ entry.1.Takes entry.2)
    (hnodup : ((before ++ entries).map (·.1)).Nodup) :
    (entries.map optionWord).foldlM (take level) { given := before } =
      .ok { given := before ++ entries } := by
  induction entries generalizing before with
  | nil => rw [List.append_nil]; rfl
  | cons entry rest ih =>
    obtain ⟨hslot, htakes⟩ := hentries entry List.mem_cons_self
    have hrest := fun e he => hentries e (List.mem_cons_of_mem _ he)
    have hall : before ++ entry :: rest = (before ++ [entry]) ++ rest := by simp
    rw [List.map_cons, List.foldlM_cons,
      take_optionWord hslot htakes rfl rfl (isGiven_of_nodup hnodup rfl), hall]
    exact ih hrest (hall ▸ hnodup)

/-! ## Arguments without names -/

/-- Behind a double dash each word is the next argument, whatever it looks like. -/
theorem foldlM_take_arguments {before args given : List (Slot × Bytes)}
    {pending : Option (Slot × Option Bytes)} {count : Nat}
    (hsettle : Taken.settle ⟨given, pending, count, true⟩ = .ok ⟨before, none, count, true⟩)
    (hslots : level.positionals.drop count = args.map (·.1))
    (htakes : ∀ entry ∈ args, entry.1.Takes entry.2)
    (hnodup : ((before ++ args).map (·.1)).Nodup) :
    ((args.map (·.2)).foldlM (take level) ⟨given, pending, count, true⟩ >>= Taken.settle) =
      .ok ⟨before ++ args, none, count + args.length, true⟩ := by
  induction args generalizing before given pending count with
  | nil =>
    rw [List.append_nil]
    exact hsettle
  | cons entry rest ih =>
    have hslot : level.positionals[count]? = some entry.1 := by
      have hfirst := congrArg List.head? hslots
      rwa [List.head?_drop] at hfirst
    have htake : take level ⟨given, pending, count, true⟩ entry.2 =
        .ok ⟨before, some (entry.1, some entry.2), count + 1, true⟩ := by
      have hplace : Taken.place ⟨given, pending, count, true⟩ entry.1 entry.2 =
          .ok ⟨before, some (entry.1, some entry.2), count + 1, true⟩ := by
        rw [Taken.place, hsettle]
        rfl
      unfold take
      rw [if_pos rfl, takePlain]
      dsimp only
      rw [hslot]
      exact hplace
    have hgive : Taken.settle ⟨before, some (entry.1, some entry.2), count + 1, true⟩ =
        .ok ⟨before ++ [entry], none, count + 1, true⟩ :=
      Taken.give_of_new (isGiven_of_nodup hnodup rfl) (htakes entry List.mem_cons_self).check
    have hall : before ++ entry :: rest = (before ++ [entry]) ++ rest := by simp
    have hcount : count + (entry :: rest).length = count + 1 + rest.length := by
      rw [List.length_cons]
      omega
    have hnext : level.positionals.drop (count + 1) = rest.map (·.1) := by
      rw [← List.tail_drop, hslots]
      rfl
    rw [List.map_cons, List.foldlM_cons, htake, hall, hcount]
    exact ih hgive hnext (fun e he => htakes e (List.mem_cons_of_mem _ he)) (hall ▸ hnodup)

theorem takeAll_of_entries {entries args : List (Slot × Bytes)}
    (hentries : ∀ entry ∈ entries, entry.1 ∈ level.options ∧ entry.1.Takes entry.2)
    (hslots : args.map (·.1) = level.positionals)
    (htakes : ∀ entry ∈ args, entry.1.Takes entry.2)
    (hnodup : ((entries ++ args).map (·.1)).Nodup) :
    takeAll level (entries.map optionWord ++ [dash, dash] :: args.map (·.2)) =
      .ok ⟨entries ++ args, none, args.length, true⟩ := by
  have hdistinct : (entries.map (·.1)).Nodup := by
    rw [List.map_append] at hnodup
    exact hnodup.of_append_left
  have hoptions : (entries.map optionWord).foldlM (take level) {} = .ok { given := entries } :=
    foldlM_take_options hentries hdistinct
  have hdashes : take level { given := entries } [dash, dash] =
      .ok ⟨entries, none, 0, true⟩ := rfl
  have hsettle : Taken.settle ⟨entries, none, 0, true⟩ = .ok ⟨entries, none, 0, true⟩ := rfl
  have hargs := foldlM_take_arguments hsettle hslots.symm htakes hnodup
  rw [Nat.zero_add] at hargs
  have hgiven : level.positionals.all
      (Taken.isGiven ⟨entries ++ args, none, args.length, true⟩) = true := by
    rw [List.all_eq_true, ← hslots]
    intro slot hslot
    obtain ⟨entry, hentry, rfl⟩ := List.mem_map.1 hslot
    have hfound : (entries ++ args).lookup entry.1 = some entry.2 :=
      (lookup_eq_some_iff_mem hnodup).2 (List.mem_append_right _ hentry)
    rw [Taken.isGiven, Taken.value?, hfound]
    rfl
  obtain ⟨all, hall, hsettled⟩ := ok_of_bind hargs
  unfold takeAll
  rw [List.foldlM_append, bind_of_ok hoptions, List.foldlM_cons, bind_of_ok hdashes,
    bind_of_ok hall, bind_of_ok hsettled]
  exact if_pos hgiven

/-! ## Whole lines -/

theorem ne_bytes_of_dash {name : String} (h : (Text.bytes name).head? ≠ some dash) (rest : Bytes) :
    dash :: rest ≠ Text.bytes name := fun he => h (by rw [← he]; rfl)

theorem command?_of_dash (rest : Bytes) : command? (dash :: rest) = none := by
  rw [command?, if_neg (ne_bytes_of_dash (by decide) rest),
    if_neg (ne_bytes_of_dash (by decide) rest)]

theorem isHelpCommand_of_dash (rest : Bytes) : isHelpCommand (dash :: rest) = false :=
  decide_eq_false (ne_bytes_of_dash (by decide) rest)

theorem takeTop_of_options (before : List (Slot × Bytes)) {entries : List (Slot × Bytes)}
    (hentries : ∀ entry ∈ entries, entry.1 ∈ Level.top.options ∧ entry.1.Takes entry.2)
    (hnodup : ((before ++ entries).map (·.1)).Nodup) (words : List Bytes) :
    takeTop { given := before } (entries.map optionWord ++ words) =
      takeTop { given := before ++ entries } words := by
  induction entries generalizing before with
  | nil => rw [List.append_nil]; rfl
  | cons entry rest ih =>
    obtain ⟨hslot, htakes⟩ := hentries entry List.mem_cons_self
    have hrest := fun e he => hentries e (List.mem_cons_of_mem _ he)
    have hall : before ++ entry :: rest = (before ++ [entry]) ++ rest := by simp
    have hnew : Taken.isGiven { given := before } entry.1 = false := isGiven_of_nodup hnodup rfl
    have htake := take_optionWord hslot htakes rfl rfl hnew
    have hword : command? (optionWord entry) = none := command?_of_dash _
    have hhelp : isHelpCommand (optionWord entry) = false := isHelpCommand_of_dash _
    rw [List.map_cons, List.cons_append, takeTop, if_neg (by simp [Taken.isExpecting]), hhelp,
      if_neg (by simp), hword]
    dsimp only
    rw [bind_of_ok htake, hall]
    exact ih (before ++ [entry]) hrest (hall ▸ hnodup)

theorem command?_word (c : Command) : command? c.word = some c.level := by
  have hrun : command? (Text.bytes "run") = some .run := by decide
  have hsend : command? (Text.bytes "send") = some .send := by decide
  cases c with
  | run => exact hrun
  | send => exact hsend

theorem isHelpCommand_word (c : Command) : isHelpCommand c.word = false := by
  have hrun : isHelpCommand (Text.bytes "run") = false := by decide
  have hsend : isHelpCommand (Text.bytes "send") = false := by decide
  cases c with
  | run => exact hrun
  | send => exact hsend

theorem takeTop_of_command (c : Command) {front : List (Slot × Bytes)} {words : List Bytes}
    {below : Taken} (h : takeAll c.level words = .ok below) :
    takeTop { given := front } (c.word :: words) = .ok ({ given := front }, c.level, below) := by
  rw [takeTop, if_neg (by simp [Taken.isExpecting]), isHelpCommand_word, if_neg (by simp),
    command?_word]
  dsimp only
  rw [bind_of_ok h]
  rfl

/-! ## What was said -/

namespace Taken

theorem text_of_value {text : String} (h : t.value? slot = some (Text.bytes text)) :
    t.text slot = text := by
  rw [Taken.text, h, Option.bind_some, Text.decode?_bytes]
  rfl

theorem port_of_value {port : UInt16} (h : t.value? slot = some (numeral port.toNat)) :
    (port? (t.text slot)).getD 0 = port := by
  rw [text_of_value h, port?_toString]
  rfl

theorem count_of_value {least : Nat} {timeout : Option Nat} (htimeout : TimeoutFrom least timeout)
    (h : t.value? slot = timeout.map numeral) : t.count? slot = timeout := by
  rw [Taken.count?, h]
  cases timeout with
  | none => rfl
  | some n =>
    rw [Option.map_some, Option.bind_some, decode?_numeral, Option.bind_some,
      count?_toString (htimeout n rfl).2]

theorem isGiven_of_value {isRaised : Bool} (h : t.value? slot = flag isRaised) :
    t.isGiven slot = isRaised := by
  rw [isGiven, h]
  cases isRaised <;> rfl

end Taken

/-- Whatever is not shared by all commands was set as the function says. -/
def Taken.Says (t : Taken) (value? : Slot → Option Bytes) : Prop :=
  ∀ slot, slot ≠ .config → slot ≠ .verbose → t.value? slot = value? slot

/-- A command that was said is the command that is understood. -/
theorem run_of_says {c : RunCommand} (h : c.IsSayable) (ht : t.Says c.value?) :
    t.command .run = .run c := by
  have hhost := ht .host nofun nofun
  have hport := ht .port nofun nofun
  have hconnect := ht .connectTimeout nofun nofun
  have hread := ht .readTimeout nofun nofun
  have hwrite := ht .writeTimeout nofun nofun
  have hreuse := ht .reuseConnection nofun nofun
  have hclose := ht .halfClose nofun nofun
  unfold Taken.command
  dsimp only
  rw [Taken.text_of_value hhost, Taken.port_of_value hport,
    ht .corpus nofun nofun, Taken.count_of_value h.connectTimeout hconnect,
    Taken.count_of_value h.readTimeout hread, Taken.count_of_value h.writeTimeout hwrite,
    Taken.isGiven_of_value hreuse, Taken.isGiven_of_value hclose,
    ht .output nofun nofun]
  rfl

theorem send_of_says {c : SendCommand} (h : c.IsSayable) (ht : t.Says c.value?) :
    t.command .send = .send c := by
  have hhost := ht .host nofun nofun
  have hport := ht .port nofun nofun
  have hconnect := ht .connectTimeout nofun nofun
  have hidle := ht .idleTimeout nofun nofun
  have hclose := ht .halfClose nofun nofun
  rw [Taken.command, Taken.text_of_value hhost, Taken.port_of_value hport,
    Taken.count_of_value h.connectTimeout hconnect, Taken.count_of_value h.idleTimeout hidle,
    Taken.isGiven_of_value hclose]

theorem command_of_says {c : Command} (h : c.IsSayable) (ht : t.Says c.value?) :
    t.command c.level = c := by
  cases c with
  | run c => exact run_of_says h ht
  | send c => exact send_of_says h ht

theorem nodup_slots : (Slot.options ++ Slot.arguments).Nodup := by decide

theorem options_of_shared {level : Level} {slot : Slot} (h : slot = .config ∨ slot = .verbose) :
    slot ∈ level.options := by
  rcases h with rfl | rfl <;> cases level <;> decide

theorem options_of_run {c : RunCommand} {slot : Slot} {value : Bytes} (hslot : slot ∈ Slot.options)
    (hv : c.value? slot = some value) : slot ∈ Level.run.options := by
  cases slot with
  | idleTimeout => cases hv
  | host | port | corpus | help | version => exact absurd hslot (by decide)
  | _ => decide

theorem options_of_send {c : SendCommand} {slot : Slot} {value : Bytes}
    (hslot : slot ∈ Slot.options) (hv : c.value? slot = some value) :
    slot ∈ Level.send.options := by
  cases slot with
  | readTimeout | writeTimeout | reuseConnection | output => cases hv
  | host | port | corpus | help | version => exact absurd hslot (by decide)
  | _ => decide

theorem value?_of_not_shared (i : Invocation) (h : slot ≠ .config) (h' : slot ≠ .verbose) :
    i.value? slot = i.command.value? slot := by
  cases slot with
  | config => exact absurd rfl h
  | verbose => exact absurd rfl h'
  | _ => rfl

theorem options_of_value {i : Invocation} {slot : Slot} {value : Bytes}
    (hslot : slot ∈ Slot.options) (hv : i.value? slot = some value) :
    slot ∈ i.command.level.options := by
  by_cases hshared : slot = .config ∨ slot = .verbose
  · exact options_of_shared hshared
  · obtain ⟨hne, hne'⟩ := not_or.1 hshared
    rw [value?_of_not_shared i hne hne'] at hv
    cases hc : i.command with
    | run c => exact options_of_run hslot (hc ▸ hv)
    | send c => exact options_of_send hslot (hc ▸ hv)

theorem mem_slots_of_value {i : Invocation} {slot : Slot} {value : Bytes}
    (hv : i.value? slot = some value) : slot ∈ Slot.options ++ Slot.arguments := by
  cases slot with
  | help | version =>
    obtain ⟨c, config, isVerbose⟩ := i
    cases c <;> cases hv
  | _ => decide

theorem keys_arguments (i : Invocation) :
    i.arguments.map (·.1) = i.command.level.positionals := by
  obtain ⟨c, config, isVerbose⟩ := i
  cases c <;> rfl

variable {i : Invocation} {front back : List (Slot × Bytes)}

/-- All that is said on a line, in the order in which it is looked up. -/
theorem perm_of_options (horder : (front ++ back).Perm i.options) :
    ((back ++ i.arguments) ++ front).Perm
      (entriesOf i.value? (Slot.options ++ Slot.arguments)) := by
  have hfront : ((back ++ i.arguments) ++ front).Perm (front ++ (back ++ i.arguments)) :=
    List.perm_append_comm
  rw [← List.append_assoc front] at hfront
  have hall : entriesOf i.value? (Slot.options ++ Slot.arguments) = i.options ++ i.arguments :=
    List.filterMap_append
  rw [hall]
  exact hfront.trans (horder.append_right i.arguments)

theorem nodup_of_options (horder : (front ++ back).Perm i.options) :
    (((back ++ i.arguments) ++ front).map (·.1)).Nodup :=
  ((perm_of_options horder).map _).nodup_iff.2 (nodup_entriesOf nodup_slots)

theorem lookup_said (horder : (front ++ back).Perm i.options) (slot : Slot) :
    ((back ++ i.arguments).lookup slot).or (front.lookup slot) = i.value? slot := by
  rw [← List.lookup_append, ← lookup_eq_of_perm (nodup_of_options horder) (perm_of_options horder),
    lookup_entriesOf nodup_slots fun _ => mem_slots_of_value]

theorem takeTop_line (h : i.IsSayable) (horder : (front ++ back).Perm i.options)
    (hfront : ∀ entry ∈ front, entry.1 = .config ∨ entry.1 = .verbose) :
    takeTop {} (i.line front back) = .ok ({ given := front }, i.command.level,
      ⟨back ++ i.arguments, none, i.arguments.length, true⟩) := by
  have hnodup := nodup_of_options horder
  rw [List.map_append] at hnodup
  have hoptions : ∀ entry ∈ front ++ back,
      entry.1 ∈ i.command.level.options ∧ entry.1.Takes entry.2 := by
    intro entry hentry
    obtain ⟨hslot, hvalue⟩ := mem_entriesOf.1 (horder.mem_iff.1 hentry)
    exact ⟨options_of_value hslot hvalue, h.takes hvalue⟩
  have hfirst : ∀ entry ∈ front, entry.1 ∈ Level.top.options ∧ entry.1.Takes entry.2 :=
    fun e he => ⟨options_of_shared (hfront e he), (hoptions e (List.mem_append_left _ he)).2⟩
  have hbelow := takeAll_of_entries (fun e he => hoptions e (List.mem_append_right _ he))
    (keys_arguments i) (fun e he => h.takes (mem_entriesOf.1 he).2) hnodup.of_append_left
  have hdistinct : (front.map (·.1)).Nodup := hnodup.of_append_right
  have htop (words : List Bytes) :
      takeTop {} (front.map optionWord ++ words) = takeTop { given := front } words :=
    takeTop_of_options [] hfirst hdistinct words
  exact (htop _).trans (takeTop_of_command i.command hbelow)

/-- Whatever can be asked for can be said: a line with the options in any order, those that all
commands share in front of the command or behind it, and the arguments behind a double dash is
understood as the invocation that it says. -/
theorem parse_line (h : i.IsSayable) (horder : (front ++ back).Perm i.options)
    (hfront : ∀ entry ∈ front, entry.1 = .config ∨ entry.1 = .verbose) :
    parse (i.line front back) = .ok i := by
  let top : Taken := { given := front }
  let below : Taken := ⟨back ++ i.arguments, none, i.arguments.length, true⟩
  have hconfig : (below.value? .config).or (top.value? .config) = i.config :=
    lookup_said horder .config
  have hverbose : (below.value? .verbose).or (top.value? .verbose) = flag i.isVerbose :=
    lookup_said horder .verbose
  have hraised : (below.isGiven .verbose || top.isGiven .verbose) = i.isVerbose := by
    rw [Taken.isGiven, Taken.isGiven, ← Option.isSome_or, hverbose]
    cases i.isVerbose <;> rfl
  have hcommand : below.command i.command.level = i.command := by
    refine command_of_says h.command fun slot hne hne' => ?_
    have hnot : slot ∉ top.given.map (·.1) := by
      intro hm
      obtain ⟨entry, hentry, rfl⟩ := List.mem_map.1 hm
      exact (hfront entry hentry).elim hne hne'
    have hfound : (below.value? slot).or (top.value? slot) = i.value? slot :=
      lookup_said horder slot
    rwa [Taken.value?_of_not_mem hnot, Option.or_none, value?_of_not_shared i hne hne'] at hfound
  have htop := takeTop_line h horder hfront
  calc parse (i.line front back)
    _ = .ok { command := below.command i.command.level
              config := (below.value? .config).or (top.value? .config)
              isVerbose := below.isGiven .verbose || top.isGiven .verbose } := bind_of_ok htop _
    _ = .ok i := by rw [hcommand, hconfig, hraised]

/-- A host that looks like an option, paths with equals signs and bytes that are no text, and the
longest timeout. -/
theorem parse_line_of_dashes :
    let c : RunCommand :=
      { host := "--output=x", port := 0, corpus := [0x2D, 0x68], halfClose := true
        connectTimeout := some 18446744073709551615, output := some [0x3D, 0xFF] }
    let i : Invocation := { command := .run c, config := some (Text.bytes "a=b"), isVerbose := true }
    let front := [(Slot.config, Text.bytes "a=b")]
    let back := [(Slot.output, [0x3D, 0xFF]), (Slot.verbose, []), (Slot.halfClose, []),
      (Slot.connectTimeout, numeral 18446744073709551615)]
    i.line front back = [Text.bytes "--config=a=b", Text.bytes "run",
        Text.bytes "--output=" ++ [0x3D, 0xFF], Text.bytes "--verbose", Text.bytes "--half-close",
        Text.bytes "--connect-timeout-ms=18446744073709551615", Text.bytes "--",
        Text.bytes "--output=x", Text.bytes "0", Text.bytes "-h"] ∧
      parse (i.line front back) = .ok i := by
  intro c i front back
  have hc : c.IsSayable := by
    constructor <;> simp [c, TimeoutFrom, NoEmptyPath, UInt64.size]
  have hi : i.IsSayable := by
    refine ⟨hc, ?_⟩
    rintro _ ⟨⟩
    decide
  have horder : (front ++ back).Perm i.options := by decide
  refine ⟨by decide, parse_line hi horder ?_⟩
  simp [front]

end CommandLine

end WireReplay
