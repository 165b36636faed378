import WireReplay.Proofs.TomlText
import WireReplay.Session

/-!
# Layers of settings

A setting comes from the command line if it is given there, else from the configuration text if it
is there, else from a default. Each of them goes its own way: a text may have any of them, in tables
and keys of any order, and a line may have any others on top of it.
-/

namespace WireReplay

theorem lookup_map {α β : Type} (f : α → β) (entries : List (String × α)) (key : String) :
    (entries.map fun entry => (entry.1, f entry.2)).lookup key = (entries.lookup key).map f := by
  induction entries with
  | nil => rfl
  | cons entry entries ih =>
    rw [List.map_cons, List.lookup_cons, List.lookup_cons, ih]
    cases key == entry.1 <;> rfl

namespace Configuration

/-- What a text sets, of all that can be set. -/
structure Given where
  connect : Option Nat := none
  read : Option Nat := none
  write : Option Nat := none
  freshConnections : Option Bool := none
  halfClose : Option Bool := none

def Given.firstZero (given : Given) : Option String :=
  ([("connect_ms", given.connect), ("read_ms", given.read), ("write_ms", given.write)].find?
    (·.2 == some 0)).map (·.1)

def Given.configuration (given : Given) : Configuration where
  timeouts := {
    connect := given.connect.getD 5000
    read := given.read.getD 2000
    write := given.write.getD 5000 }
  freshConnections := given.freshConnections.getD true
  halfClose := given.halfClose.getD false

def table? (root : Toml.Fields) (name : String) : Option Toml.Fields :=
  match root.lookup name with
  | none => some []
  | some (.table _ fields) => some fields
  | some _ => none

/-- A table in which this is set. Whatever else is in it is not asked for. -/
structure Sets (root : Toml.Fields) (given : Given) : Prop where
  timeouts : ∃ fields, table? root "timeouts" = some fields ∧
    fields.lookup "connect_ms" = given.connect.map (fun n : Nat => .integer n) ∧
    fields.lookup "read_ms" = given.read.map (fun n : Nat => .integer n) ∧
    fields.lookup "write_ms" = given.write.map fun n : Nat => .integer n
  runner : ∃ fields, table? root "runner" = some fields ∧
    fields.lookup "per_payload_connection" = given.freshConnections.map .boolean ∧
    fields.lookup "half_close" = given.halfClose.map .boolean

/-- A document in which this is set, each setting in its table. -/
structure Lays (tables : Toml.Document) (given : Given) : Prop where
  connect : (tables.lookup "timeouts").bind (·.lookup "connect_ms") = given.connect.map .amount
  read : (tables.lookup "timeouts").bind (·.lookup "read_ms") = given.read.map .amount
  write : (tables.lookup "timeouts").bind (·.lookup "write_ms") = given.write.map .amount
  freshConnections : (tables.lookup "runner").bind (·.lookup "per_payload_connection") =
    given.freshConnections.map .truth
  halfClose : (tables.lookup "runner").bind (·.lookup "half_close") = given.halfClose.map .truth

variable {given : Given} {root : Toml.Fields} {tables : Toml.Document} {text : String}

theorem table?_root (tables : Toml.Document) (name : String) :
    ∃ fields, table? tables.root name = some fields ∧
      ∀ key, fields.lookup key = ((tables.lookup name).bind (·.lookup key)).map (·.value) := by
  have hroot : tables.root.lookup name =
      (tables.lookup name).map fun pairs => .table .headed (Toml.Document.entries pairs) :=
    lookup_map (fun pairs => Toml.Value.table .headed (Toml.Document.entries pairs)) tables name
  cases htable : tables.lookup name with
  | none =>
    refine ⟨[], ?_, fun _ => rfl⟩
    rw [table?, hroot, htable]
    rfl
  | some pairs =>
    refine ⟨Toml.Document.entries pairs, ?_, fun key => lookup_map _ pairs key⟩
    rw [table?, hroot, htable]
    rfl

theorem Lays.sets (h : Lays tables given) : Sets tables.root given where
  timeouts := by
    obtain ⟨fields, htable, hfields⟩ := table?_root tables "timeouts"
    refine ⟨fields, htable, ?_, ?_, ?_⟩
    · rw [hfields, h.connect, Option.map_map]
      rfl
    · rw [hfields, h.read, Option.map_map]
      rfl
    · rw [hfields, h.write, Option.map_map]
      rfl
  runner := by
    obtain ⟨fields, htable, hfields⟩ := table?_root tables "runner"
    refine ⟨fields, htable, ?_, ?_⟩
    · rw [hfields, h.freshConnections, Option.map_map]
      rfl
    · rw [hfields, h.halfClose, Option.map_map]
      rfl

theorem record?_of_table {name : String} {fields : Toml.Fields}
    (h : table? root name = some fields) :
    ∃ record, Configuration.record? root name = some record ∧
      ∀ i key, record i key = fields.lookup key := by
  unfold table? at h
  unfold Configuration.record?
  split at h
  · rename_i hlookup
    cases h
    rw [hlookup]
    exact ⟨_, rfl, fun _ _ => rfl⟩
  · rename_i hlookup
    cases h
    rw [hlookup]
    exact ⟨_, rfl, fun _ _ => rfl⟩
  · cases h

theorem amount?_map (default : Nat) (given : Option Nat) :
    amount? default (given.map fun n : Nat => .integer n) = some (given.getD default) := by
  cases given with
  | none => rfl
  | some n =>
    rw [Option.map_some, amount?, if_pos (Int.natCast_nonneg n)]
    rfl

theorem truth?_map (default : Bool) (given : Option Bool) :
    truth? default (given.map .boolean) = some (given.getD default) := by
  cases given <;> rfl

theorem Sets.ofFields? (h : Sets root given) : ofFields? root = some given.configuration := by
  obtain ⟨timeouts, htimeouts, hconnect, hread, hwrite⟩ := h.timeouts
  obtain ⟨runner, hrunner, hfresh, hhalf⟩ := h.runner
  obtain ⟨timeout, htimeout, hkeys⟩ := record?_of_table htimeouts
  obtain ⟨habit, hhabit, hhabits⟩ := record?_of_table hrunner
  rw [Configuration.ofFields?, htimeout, hhabit]
  simp only [Option.bind_eq_bind, Option.bind_some, hkeys, hhabits, hconnect, hread, hwrite, hfresh,
    hhalf, amount?_map, truth?_map]
  rfl

theorem getD_beq_zero {default : Nat} (h : default ≠ 0) (given : Option Nat) :
    (given.getD default == 0) = (given == some 0) := by
  cases given with
  | none => exact beq_false_of_ne h
  | some n => rfl

theorem validate_configuration (given : Given) :
    given.configuration.validate =
      match given.firstZero with
      | some key => .error (.invalidConfiguration s!"timeouts.{key} must be greater than 0")
      | none => .ok given.configuration := by
  have hconnect : (given.connect.getD 5000 == 0) = (given.connect == some 0) :=
    getD_beq_zero (by decide) _
  have hread : (given.read.getD 2000 == 0) = (given.read == some 0) := getD_beq_zero (by decide) _
  have hwrite : (given.write.getD 5000 == 0) = (given.write == some 0) :=
    getD_beq_zero (by decide) _
  rw [validate, Given.firstZero]
  simp only [keyedTimeouts, Given.configuration, List.find?, hconnect, hread, hwrite]
  cases given.connect == some 0
  · cases given.read == some 0
    · cases given.write == some 0 <;> rfl
    · rfl
  · rfl

theorem parse_of_sets (hparse : Toml.parse? text = some root) (h : Sets root given) :
    Configuration.parse text = given.configuration.validate := by
  have hread : (Toml.parse? text >>= Configuration.ofFields?) = some given.configuration := by
    rw [hparse]
    exact h.ofFields?
  rw [Configuration.parse, hread]

end Configuration

theorem RunCommand.settings_configuration (c : RunCommand) (given : Configuration.Given) :
    c.settings given.configuration =
      { connectTimeout := .ofMillis ((c.connectTimeout.or given.connect).getD 5000)
        readTimeout := .ofMillis ((c.readTimeout.or given.read).getD 2000)
        writeTimeout := .ofMillis ((c.writeTimeout.or given.write).getD 5000)
        freshConnections := if c.reuseConnection then false else given.freshConnections.getD true
        halfClose := c.halfClose || given.halfClose.getD false } := by
  have hover (flag configured : Option Nat) (default : Nat) :
      flag.elim (Duration.ofMillis (configured.getD default)) .ofMillis =
        .ofMillis ((flag.or configured).getD default) := by
    cases flag <;> rfl
  have hfresh : (given.freshConnections.getD true && !c.reuseConnection) =
      if c.reuseConnection then false else given.freshConnections.getD true := by
    cases c.reuseConnection
    · exact Bool.and_true _
    · exact Bool.and_false _
  simp only [RunCommand.settings, Configuration.settings, Configuration.Given.configuration, hover,
    hfresh, Bool.or_comm]

theorem SendCommand.settings_configuration (c : SendCommand) (given : Configuration.Given) :
    c.settings given.configuration =
      { connectTimeout := .ofMillis ((c.connectTimeout.or given.connect).getD 5000)
        writeTimeout := .ofMillis (given.write.getD 5000)
        idleTimeout := match (c.idleTimeout.or given.read).getD 2000 with
          | 0 => none
          | ms => some (.ofMillis ms)
        halfClose := c.halfClose || given.halfClose.getD false } := by
  have hover (flag configured : Option Nat) (default : Nat) :
      flag.getD (configured.getD default) = (flag.or configured).getD default := by
    cases flag <;> rfl
  have hidle (ms : Nat) : (if ms = 0 then none else some (Duration.ofMillis ms)) =
      match ms with
      | 0 => none
      | ms => some (.ofMillis ms) := by
    cases ms <;> rfl
  simp only [SendCommand.settings, Configuration.Given.configuration, hover, hidle]

namespace Configuration

/-- How settings are layered. A document has them in tables and under keys of any order, and its
text is read as what it sets; but any other text that is read so does as well. If it sets a timeout
to zero, it is refused for the first of these. Else each setting of a replay and of a relay is the
one of the command, or else the one of the text, or else the default; connections are shared if the
command asks for it, writing is closed if the command or the text asks for it, and no time at all is
no limit for how long a peer may be idle. -/
theorem settings_layered :
    (∀ tables : Toml.Document, tables.IsPlain → ∀ given, Lays tables given →
      ∃ root, Toml.parse? tables.text = some root ∧ Sets root given) ∧
    ∀ (text : String) (root : Toml.Fields) (given : Given),
      Toml.parse? text = some root → Sets root given →
        (∀ key, given.firstZero = some key → Configuration.parse text =
          .error (.invalidConfiguration s!"timeouts.{key} must be greater than 0")) ∧
        (given.firstZero = none → ∃ config, Configuration.parse text = .ok config ∧
          (∀ c : RunCommand, c.settings config =
            { connectTimeout := .ofMillis ((c.connectTimeout.or given.connect).getD 5000)
              readTimeout := .ofMillis ((c.readTimeout.or given.read).getD 2000)
              writeTimeout := .ofMillis ((c.writeTimeout.or given.write).getD 5000)
              freshConnections :=
                if c.reuseConnection then false else given.freshConnections.getD true
              halfClose := c.halfClose || given.halfClose.getD false }) ∧
          ∀ c : SendCommand, c.settings config =
            { connectTimeout := .ofMillis ((c.connectTimeout.or given.connect).getD 5000)
              writeTimeout := .ofMillis (given.write.getD 5000)
              idleTimeout := match (c.idleTimeout.or given.read).getD 2000 with
                | 0 => none
                | ms => some (.ofMillis ms)
              halfClose := c.halfClose || given.halfClose.getD false }) := by
  refine ⟨fun tables hplain given hlays => ⟨_, Toml.Document.parse?_text hplain, hlays.sets⟩,
    fun text root given hparse hsets => ⟨fun key hzero => ?_, fun hzero => ?_⟩⟩
  · rw [parse_of_sets hparse hsets, validate_configuration, hzero]
  · refine ⟨given.configuration, ?_, (·.settings_configuration given),
      (·.settings_configuration given)⟩
    rw [parse_of_sets hparse hsets, validate_configuration, hzero]

def reversed : Toml.Document :=
  [("runner", [("half_close", .truth true)]),
    ("timeouts", [("write_ms", .amount 70), ("read_ms", .amount 250)])]

/-- Two settings of the document are left, one is given anew by the command, and one by none. -/
theorem settings_layered_of_reversed :
    reversed.text =
        "[runner]\nhalf_close = true\n[timeouts]\nwrite_ms = 70\nread_ms = 250\n" ∧
      ∃ config, Configuration.parse reversed.text = .ok config ∧
        let c : RunCommand :=
          { host := "h", port := 1, corpus := [], readTimeout := some 9, reuseConnection := true }
        c.settings config =
          { connectTimeout := .ofMillis 5000
            readTimeout := .ofMillis 9
            writeTimeout := .ofMillis 70
            freshConnections := false
            halfClose := true } := by
  have hplain : reversed.IsPlain := by constructor <;> decide
  have hlays : Lays reversed { read := some 250, write := some 70, halfClose := some true } :=
    ⟨rfl, rfl, rfl, rfl, rfl⟩
  obtain ⟨root, hparse, hsets⟩ := settings_layered.1 reversed hplain _ hlays
  obtain ⟨config, hconfig, hrun, -⟩ := (settings_layered.2 _ root _ hparse hsets).2 rfl
  exact ⟨by decide, config, hconfig, hrun _⟩

end Configuration

end WireReplay
