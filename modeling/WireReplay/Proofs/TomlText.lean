import Mathlib.Data.List.Basic
import Mathlib.Data.List.TakeDrop
import WireReplay.Proofs.Digits
import WireReplay.Toml.Document

/-!
# Reading plain TOML

The plainest kind of TOML text: tables under headers of their own, and in each of them keys with an
amount or a truth value, every one on its line. Such a text is read as the tables that it lays out,
in whatever order they and their keys are.
-/

namespace WireReplay.Toml

/-- A text that has a line for itself is read as this. -/
def Reads (text : List Char) (line : Line) : Prop :=
  ∀ rest, line? (text ++ '\n' :: rest) = some (line, '\n' :: rest)

theorem lines?_of_reads {text : List Char} {line : Line} (h : Reads text line) (rest : List Char) :
    lines? (text ++ '\n' :: rest) =
      if rest = [] then some [line] else (lines? rest).map (line :: ·) := by
  have hend : lineEnd? ('\n' :: rest) = some rest := rfl
  have hlt : rest.length < (text ++ '\n' :: rest).length := by
    rw [List.length_append, List.length_cons]
    omega
  rw [lines?, h rest, Option.bind_eq_bind, Option.bind_some]
  dsimp only
  rw [hend, Option.bind_eq_bind, Option.bind_some]
  cases rest with
  | nil => rfl
  | cons c rest =>
    rw [if_neg (List.cons_ne_nil c rest), dif_pos hlt]
    cases lines? (c :: rest) <;> rfl

theorem lines?_flatMap {written : List (List Char × Line)} (hne : written ≠ [])
    (h : ∀ entry ∈ written, Reads entry.1 entry.2) :
    lines? (written.flatMap fun entry => entry.1 ++ ['\n']) = some (written.map (·.2)) := by
  induction written with
  | nil => exact absurd rfl hne
  | cons entry written ih =>
    rw [List.flatMap_cons, List.append_assoc, List.singleton_append,
      lines?_of_reads (h entry List.mem_cons_self)]
    cases written with
    | nil => rfl
    | cons next written =>
      have hrest := ih (List.cons_ne_nil _ _) fun other hother =>
        h other (List.mem_cons_of_mem _ hother)
      have htext : (next :: written).flatMap (fun entry => entry.1 ++ ['\n']) ≠ [] := by
        simp
      rw [if_neg htext, hrest]
      rfl

/-! ### Keys -/

/-- A key that needs no quotes. -/
structure IsBare (key : String) : Prop where
  nonempty : key.toList ≠ []
  all : key.toList.all isBareKeyChar = true

instance (key : String) : Decidable (IsBare key) :=
  decidable_of_iff (key.toList ≠ [] ∧ key.toList.all isBareKeyChar = true)
    ⟨fun h => ⟨h.1, h.2⟩, fun h => ⟨h.1, h.2⟩⟩

theorem IsBare.bare {key : String} (h : IsBare key) : ∀ c ∈ key.toList, isBareKeyChar c = true :=
  List.all_eq_true.mp h.all

theorem skipBlanks_cons {c : Char} (h : isBlank c = false) (s : List Char) :
    skipBlanks (c :: s) = c :: s :=
  List.dropWhile_cons_of_neg (by simp [h])

theorem skipBlanks_of_head {s : List Char} (h : ∀ c ∈ s.head?, isBlank c = false) :
    skipBlanks s = s := by
  cases s with
  | nil => rfl
  | cons c s => exact skipBlanks_cons (h c rfl) s

theorem isBlank_of_bare {c : Char} (h : isBareKeyChar c = true) : isBlank c = false := by
  simp only [isBlank, Bool.or_eq_false_iff, beq_eq_false_iff_ne]
  exact ⟨ne_of_test h (by decide), ne_of_test h (by decide)⟩

section Quotes

variable {s : List Char}

theorem quotedKey?_of_head (h : ∀ c ∈ s.head?, c ≠ '"' ∧ c ≠ '\'') : quotedKey? s = none := by
  unfold quotedKey?
  split
  · exact absurd rfl (h '"' rfl).1
  · exact absurd rfl (h '\'' rfl).2
  · rfl

theorem quoted?_of_head (h : ∀ c ∈ s.head?, c ≠ '"' ∧ c ≠ '\'') : quoted? s = none := by
  unfold quoted?
  split
  · exact absurd rfl (h '"' rfl).1
  · exact absurd rfl (h '\'' rfl).2
  · exact quotedKey?_of_head h

end Quotes

section Keys

variable {key : String} {rest : List Char}

theorem IsBare.exists_cons (h : IsBare key) :
    ∃ c others, key.toList = c :: others ∧ isBareKeyChar c = true := by
  obtain ⟨c, others, hkey⟩ := List.exists_cons_of_ne_nil h.nonempty
  exact ⟨c, others, hkey, h.bare c (hkey ▸ List.mem_cons_self)⟩

theorem IsBare.keyPart? (h : IsBare key) (hrest : ∀ c ∈ rest.head?, isBareKeyChar c = false) :
    keyPart? (key.toList ++ rest) = some (key, rest) := by
  obtain ⟨c, others, hkey, hc⟩ := h.exists_cons
  have hquoted : quotedKey? (key.toList ++ rest) = none := by
    refine quotedKey?_of_head fun d hd => ?_
    rw [hkey] at hd
    rw [← Option.some.inj hd]
    exact ⟨ne_of_test hc (by decide), ne_of_test hc (by decide)⟩
  obtain ⟨htake, hdrop⟩ := takeWhile_append_of_ends h.bare hrest
  have hspan : (key.toList ++ rest).span isBareKeyChar = (key.toList, rest) := by
    rw [List.span_eq_takeWhile_dropWhile, htake, hdrop]
  rw [Toml.keyPart?, hquoted, hspan]
  dsimp only
  rw [if_neg (by simpa using h.nonempty), String.ofList_toList]

theorem IsBare.key? (h : IsBare key) (hrest : ∀ c ∈ rest.head?, isBareKeyChar c = false)
    (hdot : (skipBlanks rest).head? ≠ some '.') :
    key? (key.toList ++ rest) = some ([key], skipBlanks rest) := by
  obtain ⟨c, others, hkey, hc⟩ := h.exists_cons
  have hskip : skipBlanks (key.toList ++ rest) = key.toList ++ rest := by
    rw [hkey]
    exact skipBlanks_cons (isBlank_of_bare hc) _
  have hparts : keyParts? (key.toList ++ rest) = some ([key], skipBlanks rest) := by
    rw [keyParts?, hskip, h.keyPart? hrest, Option.bind_eq_bind, Option.bind_some]
    dsimp only
    split
    · rename_i hdots
      rw [hdots] at hdot
      exact absurd rfl hdot
    · rfl
  rw [Toml.key?, hparts]
  rfl

end Keys

/-! ### Values -/

/-- Only digits are left on the line. -/
def IsNumeric (s : List Char) : Prop :=
  ∃ digits rest, s = digits ++ '\n' :: rest ∧ ∀ c ∈ digits, c.isDigit = true

section Numeric

variable {s rest : List Char}

theorem isNumeric_toDigits (n : Nat) (rest : List Char) :
    IsNumeric (Nat.toDigits 10 n ++ '\n' :: rest) :=
  ⟨_, rest, rfl, fun _ hc => isDigit_of_mem_toDigits hc⟩

theorem IsNumeric.head? (h : IsNumeric s) : ∀ c ∈ s.head?, c.isDigit = true ∨ c = '\n' := by
  obtain ⟨digits, rest, rfl, hdigits⟩ := h
  intro c hc
  cases digits with
  | nil => exact .inr (Option.some.inj hc).symm
  | cons d digits => exact .inl (Option.some.inj hc ▸ hdigits d List.mem_cons_self)

theorem IsNumeric.past? (h : IsNumeric s) {c : Char} (hc : c.isDigit = false) (hline : c ≠ '\n') :
    past? c s = none := by
  cases s with
  | nil => rfl
  | cons d s =>
    have hd : d ≠ c := by
      rintro rfl
      rcases h.head? d rfl with hdigit | hend
      · rw [hc] at hdigit
        cases hdigit
      · exact hline hend
    exact if_neg (by simpa using hd)

theorem IsNumeric.tail {c : Char} (h : IsNumeric (c :: s)) (hc : c.isDigit = true) :
    IsNumeric s := by
  obtain ⟨digits, rest, hs, hdigits⟩ := h
  cases digits with
  | nil =>
    rw [(List.cons.inj hs).1] at hc
    cases hc
  | cons d digits =>
    exact ⟨digits, rest, (List.cons.inj hs).2, fun e he => hdigits e (List.mem_cons_of_mem d he)⟩

theorem IsNumeric.twoDigits? (h : IsNumeric s) {low high n : Nat}
    (hread : twoDigits? low high s = some (n, rest)) : IsNumeric rest := by
  unfold Toml.twoDigits? at hread
  split at hread
  · simp only [Option.ite_none_right_eq_some, Bool.and_eq_true] at hread
    obtain ⟨⟨⟨⟨ha, hb⟩, -⟩, -⟩, hrest⟩ := hread
    cases hrest
    exact (h.tail ha).tail hb
  · cases hread

theorem IsNumeric.date? (h : IsNumeric s) : date? s = none := by
  rw [Option.eq_none_iff_forall_ne_some]
  intro behind hdate
  obtain ⟨⟨century, afterCentury⟩, hcentury, hdate⟩ := Option.bind_eq_some_iff.mp hdate
  obtain ⟨⟨year, afterYear⟩, hyear, hdate⟩ := Option.bind_eq_some_iff.mp hdate
  obtain ⟨month, hmonth, -⟩ := Option.bind_eq_some_iff.mp hdate
  rw [((h.twoDigits? hcentury).twoDigits? hyear).past? (by decide) (by decide)] at hmonth
  cases hmonth

theorem IsNumeric.time? (h : IsNumeric s) : time? s = none := by
  rw [Option.eq_none_iff_forall_ne_some]
  intro behind htime
  obtain ⟨⟨hour, afterHour⟩, hhour, htime⟩ := Option.bind_eq_some_iff.mp htime
  obtain ⟨minute, hminute, -⟩ := Option.bind_eq_some_iff.mp htime
  rw [(h.twoDigits? hhour).past? (by decide) (by decide)] at hminute
  cases hminute

theorem IsNumeric.moment? (h : IsNumeric s) : moment? s = none := by
  rw [Toml.moment?, h.date?]
  exact h.time?

theorem IsNumeric.sign (h : IsNumeric s) : sign s = (false, s) := by
  unfold Toml.sign
  split
  · exact absurd (h.head? '-' rfl) (by decide)
  · exact absurd (h.head? '+' rfl) (by decide)
  · rfl

theorem IsNumeric.special? (h : IsNumeric s) : special? s = none := by
  have hne {c : Char} {word : List Char} (hc : ¬ (c.isDigit = true ∨ c = '\n')) :
      pastWord? (c :: word) s = none := by
    refine if_neg fun hprefix => hc (h.head? c ?_)
    obtain ⟨others, rfl⟩ := List.isPrefixOf_iff_prefix.mp hprefix
    rfl
  rw [Toml.special?, h.sign, hne (by decide), hne (by decide)]
  rfl

end Numeric

theorem moreDigits_digits {digits : List Char} (h : ∀ c ∈ digits, c.isDigit = true)
    (rest : List Char) :
    moreDigits Char.isDigit (digits ++ '\n' :: rest) = (digits, '\n' :: rest) := by
  induction digits with
  | nil =>
    rw [List.nil_append, moreDigits, if_neg (by decide)]
    intro c others hline
    exact absurd hline (by decide)
  | cons d digits ih =>
    have hd := h d List.mem_cons_self
    rw [List.cons_append, moreDigits, if_pos hd, ih fun c hc => h c (List.mem_cons_of_mem d hc)]
    rintro c others rfl
    cases hd

theorem decimal?_toDigits (n : Nat) (rest : List Char) :
    decimal? (Nat.toDigits 10 n ++ '\n' :: rest) = some (Nat.toDigits 10 n, '\n' :: rest) := by
  cases n with
  | zero => rfl
  | succ m =>
    obtain ⟨c, others, hdigits, hc⟩ := toDigits_of_pos (Nat.succ_pos m)
    have hall (d : Char) (hd : d ∈ c :: others) : d.isDigit = true :=
      isDigit_of_mem_toDigits (hdigits ▸ hd)
    rw [hdigits, List.cons_append, decimal?, digits?, if_pos (hall c List.mem_cons_self),
      moreDigits_digits fun d hd => hall d (List.mem_cons_of_mem c hd)]
    intro others' hzero
    exact hc (List.cons.inj hzero).1

theorem ofDigits_toDigits (n : Nat) : ofDigits 10 (Nat.toDigits 10 n) = n := by
  have hvalue (m : Nat) (c : Char) (hc : c ∈ Nat.toDigits 10 n) :
      m * 10 + (hexValue? c).getD 0 = 10 * m + (c.toNat - '0'.toNat) := by
    rw [hexValue?, if_pos (isDigit_of_mem_toDigits hc), Option.getD_some, Nat.mul_comm]
  rw [ofDigits, List.foldl_ext _ _ 0 hvalue]
  exact Nat.ofDigitChars_ten_toDigits

theorem bounded?_of_lt {n : Nat} (h : n < 0x8000000000000000) : bounded? n = some (n : Int) := by
  refine if_pos ?_
  simp only [Bool.and_eq_true, decide_eq_true_eq]
  omega

theorem float?_toDigits (n : Nat) (rest : List Char) :
    float? (Nat.toDigits 10 n ++ '\n' :: rest) = none := by
  rw [float?, (isNumeric_toDigits n rest).sign]
  dsimp only
  rw [decimal?_toDigits]
  rfl

theorem eq_of_leading_zero {n : Nat} {c : Char} {rest others : List Char}
    (h : Nat.toDigits 10 n ++ '\n' :: rest = '0' :: c :: others) : c = '\n' := by
  cases n with
  | zero => exact (List.cons.inj (List.cons.inj h).2).1.symm
  | succ m =>
    obtain ⟨d, more, hdigits, hd⟩ := toDigits_of_pos (Nat.succ_pos m)
    rw [hdigits] at h
    exact absurd (List.cons.inj h).1 hd

theorem integer?_toDigits {n : Nat} (h : n < 0x8000000000000000) (rest : List Char) :
    integer? (Nat.toDigits 10 n ++ '\n' :: rest) = some ((n : Int), '\n' :: rest) := by
  unfold integer?
  split
  · exact absurd (eq_of_leading_zero ‹_›) (by decide)
  · exact absurd (eq_of_leading_zero ‹_›) (by decide)
  · exact absurd (eq_of_leading_zero ‹_›) (by decide)
  · rw [(isNumeric_toDigits n rest).sign, decimal?_toDigits, Option.bind_eq_bind,
      Option.bind_some]
    dsimp only
    rw [ofDigits_toDigits, if_neg Bool.false_ne_true, bounded?_of_lt h]
    rfl

/-- What stands for itself behind a key. -/
inductive Plain
  | amount (n : Nat)
  | truth (b : Bool)
deriving DecidableEq, Repr

namespace Plain

def value : Plain → Value
  | amount n => .integer n
  | truth b => .boolean b

def text : Plain → List Char
  | amount n => Nat.toDigits 10 n
  | truth b => (toString b).toList

def Fits : Plain → Prop
  | amount n => n < 0x8000000000000000
  | truth _ => True

instance : DecidablePred Fits
  | amount n => inferInstanceAs (Decidable (n < 0x8000000000000000))
  | truth _ => inferInstanceAs (Decidable True)

theorem scalar?_text {v : Plain} (h : v.Fits) (rest : List Char) :
    scalar? (v.text ++ '\n' :: rest) = some (v.value, '\n' :: rest) := by
  cases v with
  | truth b => cases b <;> rfl
  | amount n =>
    have hnumeric := isNumeric_toDigits n rest
    have hquoted : quoted? (Nat.toDigits 10 n ++ '\n' :: rest) = none := by
      refine quoted?_of_head fun c hc => ?_
      constructor
      all_goals
        rintro rfl
        exact absurd (hnumeric.head? _ hc) (by decide)
    rw [text, scalar?, hquoted, hnumeric.moment?, float?_toDigits, hnumeric.special?,
      integer?_toDigits h]
    rfl

theorem head?_text (v : Plain) (rest : List Char) :
    ∀ c ∈ (v.text ++ '\n' :: rest).head?, isBlank c = false ∧ c ≠ '[' ∧ c ≠ '\x7b' := by
  intro c hc
  cases v with
  | truth b =>
    cases b <;> cases hc <;> decide
  | amount n =>
    rcases (isNumeric_toDigits n rest).head? c hc with hdigit | rfl
    · have hne (d : Char) (hd : d.isDigit = false) : c ≠ d := ne_of_test hdigit hd
      simp only [isBlank, Bool.or_eq_false_iff, beq_eq_false_iff_ne]
      exact ⟨⟨hne _ rfl, hne _ rfl⟩, hne _ rfl, hne _ rfl⟩
    · decide

end Plain

theorem value?_of_head {s : List Char} (h : ∀ c ∈ s.head?, c ≠ '[' ∧ c ≠ '\x7b') (depth : Nat) :
    value? depth s = scalar? s := by
  cases depth with
  | zero => rfl
  | succ depth =>
    unfold value?
    split
    · exact absurd rfl (h '[' rfl).1
    · exact absurd rfl (h '\x7b' rfl).2
    · rfl

/-! ### Lines -/

def pairText (pair : String × Plain) : List Char := pair.1.toList ++ ' ' :: '=' :: ' ' :: pair.2.text

def pairLine (pair : String × Plain) : Line := .pair [pair.1] pair.2.value

def headerText (name : String) : List Char := '[' :: name.toList ++ [']']

theorem lineEnd?_of_bare {c : Char} (h : isBareKeyChar c = true) (s : List Char) :
    lineEnd? (c :: s) = none := by
  have hend : newline? (c :: s) = none := by
    unfold newline?
    split
    · exact absurd (List.cons.inj ‹_›).1 (ne_of_test h (by decide))
    · exact absurd (List.cons.inj ‹_›).1 (ne_of_test h (by decide))
    · rfl
  rw [lineEnd?, skipBlanks_cons (isBlank_of_bare h)]
  split
  · exact absurd (List.cons.inj ‹_›).1 (ne_of_test h (by decide))
  · exact hend

theorem pair?_pairText {pair : String × Plain} (hkey : IsBare pair.1) (hvalue : pair.2.Fits)
    (depth : Nat) (rest : List Char) :
    pair? (value? depth) (pairText pair ++ '\n' :: rest) =
      some (([pair.1], pair.2.value), '\n' :: rest) := by
  have hread : key? (pairText pair ++ '\n' :: rest) =
      some ([pair.1], '=' :: ' ' :: (pair.2.text ++ '\n' :: rest)) := by
    rw [pairText, List.append_assoc]
    exact hkey.key? (fun c hc => Option.some.inj hc ▸ by decide)
      fun h => absurd (Option.some.inj h : '=' = '.') (by decide)
  have hhead := pair.2.head?_text rest
  have hskip : skipBlanks (' ' :: (pair.2.text ++ '\n' :: rest)) =
      pair.2.text ++ '\n' :: rest := skipBlanks_of_head fun c hc => (hhead c hc).1
  have hscalar : value? depth (pair.2.text ++ '\n' :: rest) =
      some (pair.2.value, '\n' :: rest) := by
    rw [value?_of_head fun c hc => (hhead c hc).2, Plain.scalar?_text hvalue]
  rw [pair?, hread, Option.bind_eq_bind, Option.bind_some]
  dsimp only
  rw [past?, if_pos (by decide), Option.bind_eq_bind, Option.bind_some, hskip, hscalar]
  rfl

theorem reads_pair {pair : String × Plain} (hkey : IsBare pair.1) (hvalue : pair.2.Fits) :
    Reads (pairText pair) (pairLine pair) := by
  intro rest
  have hpair := pair?_pairText hkey hvalue nestingLimit rest
  obtain ⟨c, others, htext, hc⟩ := hkey.exists_cons
  have hline : pairText pair ++ '\n' :: rest =
      c :: (others ++ ' ' :: '=' :: ' ' :: pair.2.text ++ '\n' :: rest) := by
    rw [pairText, htext]
    rfl
  rw [hline] at hpair ⊢
  unfold line?
  rw [skipBlanks_cons (isBlank_of_bare hc)]
  split
  · exact absurd (List.cons.inj ‹_›).1 (ne_of_test hc (by decide))
  · exact absurd (List.cons.inj ‹_›).1 (ne_of_test hc (by decide))
  · rw [lineEnd?_of_bare hc, hpair]
    rfl

theorem reads_header {name : String} (h : IsBare name) :
    Reads (headerText name) (.header (.single [] name)) := by
  intro rest
  have hread : key? (name.toList ++ ']' :: '\n' :: rest) = some ([name], ']' :: '\n' :: rest) :=
    h.key? (fun c hc => Option.some.inj hc ▸ by decide)
      fun hdot => absurd (Option.some.inj hdot : ']' = '.') (by decide)
  have hline : headerText name ++ '\n' :: rest = '[' :: (name.toList ++ ']' :: '\n' :: rest) := by
    rw [headerText, List.append_assoc]
    rfl
  obtain ⟨c, others, htext, hc⟩ := h.exists_cons
  rw [hline]
  unfold line?
  rw [skipBlanks_cons (by decide)]
  split
  · rename_i htables
    rw [htext] at htables
    exact absurd (List.cons.inj (List.cons.inj htables).2).1 (ne_of_test hc (by decide))
  · rename_i htable
    rw [← (List.cons.inj htable).2, hread]
    rfl
  · rename_i hother
    exact absurd rfl (hother _)

/-! ### Documents -/

/-- The tables of a text, in order, each with its keys and their values in order. -/
abbrev Document := List (String × List (String × Plain))

namespace Document

/-- No table and no key in a table is there twice, and all can be written plainly. -/
structure IsPlain (tables : Document) : Prop where
  names : (tables.map (·.1)).Nodup
  bareNames : ∀ table ∈ tables, IsBare table.1
  keys : ∀ table ∈ tables, (table.2.map (·.1)).Nodup
  bareKeys : ∀ table ∈ tables, ∀ pair ∈ table.2, IsBare pair.1
  fits : ∀ table ∈ tables, ∀ pair ∈ table.2, pair.2.Fits

def tableLines (table : String × List (String × Plain)) : List (List Char × Line) :=
  (headerText table.1, .header (.single [] table.1)) ::
    table.2.map fun pair => (pairText pair, pairLine pair)

/-- The text of a document. -/
def text (tables : Document) : String :=
  String.ofList ((tables.flatMap tableLines).flatMap fun entry => entry.1 ++ ['\n'])

def entries (pairs : List (String × Plain)) : Fields := pairs.map fun pair => (pair.1, pair.2.value)

/-- The whole table that a document comes to. -/
def root (tables : Document) : Fields :=
  tables.map fun table => (table.1, .table .headed (entries table.2))

variable {tables : Document}

theorem IsPlain.reads (h : tables.IsPlain) :
    ∀ entry ∈ tables.flatMap tableLines, Reads entry.1 entry.2 := by
  intro entry hentry
  obtain ⟨table, htable, hline⟩ := List.mem_flatMap.mp hentry
  rcases List.mem_cons.mp hline with rfl | hpair
  · exact reads_header (h.bareNames table htable)
  · obtain ⟨pair, hmem, rfl⟩ := List.mem_map.mp hpair
    exact reads_pair (h.bareKeys table htable pair hmem) (h.fits table htable pair hmem)

theorem sections_map_pairLine (pairs : List (String × Plain)) (lines : List Line) :
    sections (pairs.map pairLine ++ lines) =
      ((pairs.map fun pair => ([pair.1], pair.2.value)) ++ (sections lines).1,
        (sections lines).2) := by
  induction pairs with
  | nil => rfl
  | cons pair pairs ih =>
    rw [List.map_cons, List.cons_append, pairLine, sections, ih]
    rfl

theorem sections_flatMap (tables : Document) :
    sections ((tables.flatMap tableLines).map (·.2)) =
      ([], tables.map fun table => (.single [] table.1,
        table.2.map fun pair => ([pair.1], pair.2.value))) := by
  induction tables with
  | nil => rfl
  | cons table tables ih =>
    have hlines : (tableLines table).map (·.2) =
        .header (.single [] table.1) :: table.2.map pairLine := by
      rw [tableLines, List.map_cons, List.map_map]
      rfl
    rw [List.flatMap_cons, List.map_append, hlines, List.cons_append, sections,
      sections_map_pairLine, ih]
    simp

theorem lookup_append_ne {fields : Fields} {key other : String} (value : Value)
    (hnew : fields.lookup key = none) (hne : key ≠ other) :
    (fields ++ [(other, value)]).lookup key = none := by
  rw [List.lookup_append, hnew, Option.none_or, List.lookup_cons, beq_false_of_ne hne,
    List.lookup_nil]

theorem set_of_new {fields : Fields} {key : String} (value : Value)
    (hnew : fields.lookup key = none) : fields.set key value = fields ++ [(key, value)] := by
  induction fields with
  | nil => rfl
  | cons field fields ih =>
    rw [List.lookup_cons] at hnew
    cases hkey : key == field.1 with
    | true =>
      rw [hkey] at hnew
      cases hnew
    | false =>
      rw [hkey] at hnew
      have hother : ¬ (field.1 == key) = true := by
        rw [beq_iff_eq]
        exact fun h => beq_eq_false_iff_ne.mp hkey h.symm
      rw [Fields.set, if_neg hother, ih hnew, List.cons_append]

theorem foldlM_of_some {α β : Type} {step : α → β → Option α} {a next : α} {b : β} {bs : List β}
    (h : step a b = some next) : (b :: bs).foldlM step a = bs.foldlM step next := by
  rw [List.foldlM_cons, h]
  rfl

theorem insertAll_of_new {pairs : List (String × Plain)} {fields : Fields}
    (hkeys : (pairs.map (·.1)).Nodup) (hnew : ∀ pair ∈ pairs, fields.lookup pair.1 = none) :
    Fields.insertAll fields (pairs.map fun pair => ([pair.1], pair.2.value)) =
      some (fields ++ entries pairs) := by
  induction pairs generalizing fields with
  | nil => exact congrArg some (List.append_nil fields).symm
  | cons pair pairs ih =>
    rw [List.map_cons, List.nodup_cons] at hkeys
    have hinsert : Fields.insert pair.2.value [pair.1] fields =
        some (fields ++ [(pair.1, pair.2.value)]) := by
      rw [Fields.insert, hnew pair List.mem_cons_self]
      rfl
    have hlater (other : String × Plain) (hm : other ∈ pairs) :
        (fields ++ [(pair.1, pair.2.value)]).lookup other.1 = none :=
      lookup_append_ne _ (hnew other (List.mem_cons_of_mem _ hm)) fun hsame =>
        hkeys.1 (hsame ▸ List.mem_map_of_mem hm)
    have hrest := ih hkeys.2 hlater
    rw [List.append_assoc] at hrest
    exact (foldlM_of_some hinsert).trans hrest

theorem addSection_of_new {table : String × List (String × Plain)} {fields : Fields}
    (hkeys : (table.2.map (·.1)).Nodup) (hnew : fields.lookup table.1 = none) :
    fields.addSection (table.2.map fun pair => ([pair.1], pair.2.value)) (.single [] table.1) =
      some (fields ++ [(table.1, .table .headed (entries table.2))]) := by
  rw [Fields.addSection, Fields.modifyAt, hnew, insertAll_of_new hkeys fun _ _ => rfl]
  exact congrArg some (set_of_new _ hnew)

theorem foldlM_addSection {fields : Fields} (hnames : (tables.map (·.1)).Nodup)
    (hkeys : ∀ table ∈ tables, (table.2.map (·.1)).Nodup)
    (hnew : ∀ table ∈ tables, fields.lookup table.1 = none) :
    (tables.map fun table => (Header.single [] table.1,
      table.2.map fun pair => ([pair.1], pair.2.value))).foldlM
        (fun root (header, pairs) => root.addSection pairs header) fields =
      some (fields ++ tables.root) := by
  induction tables generalizing fields with
  | nil => exact congrArg some (List.append_nil fields).symm
  | cons table tables ih =>
    rw [List.map_cons, List.nodup_cons] at hnames
    have hlater (other : String × List (String × Plain)) (hm : other ∈ tables) :
        (fields ++ [(table.1, Value.table .headed (entries table.2))]).lookup other.1 = none :=
      lookup_append_ne _ (hnew other (List.mem_cons_of_mem _ hm)) fun hsame =>
        hnames.1 (hsame ▸ List.mem_map_of_mem hm)
    have hrest := ih hnames.2 (fun other hm => hkeys other (List.mem_cons_of_mem _ hm)) hlater
    rw [List.append_assoc] at hrest
    have hadd := addSection_of_new (hkeys table List.mem_cons_self) (hnew table List.mem_cons_self)
    exact (foldlM_of_some hadd).trans hrest

theorem ofLines?_tableLines (h : tables.IsPlain) :
    ofLines? ((tables.flatMap tableLines).map (·.2)) = some tables.root := by
  rw [ofLines?, sections_flatMap]
  exact foldlM_addSection h.names h.keys fun _ _ => rfl

/-- A document is read back from its text. -/
theorem parse?_text (h : tables.IsPlain) : parse? tables.text = some tables.root := by
  cases tables with
  | nil =>
    have hblank : lines? [] = some [.blank] := by
      rw [lines?]
      rfl
    rw [parse?, text, String.toList_ofList]
    exact congrArg (Option.bind · ofLines?) hblank
  | cons table others =>
    have hne : (table :: others).flatMap tableLines ≠ [] := by simp [tableLines]
    have hlines := lines?_flatMap hne h.reads
    have hread : parse? (text (table :: others)) = (lines? (((table :: others).flatMap
        tableLines).flatMap fun entry => entry.1 ++ ['\n'])).bind ofLines? := by
      rw [parse?, text, String.toList_ofList]
      rfl
    rw [hread, hlines, Option.bind_some, ofLines?_tableLines h]

end Document

end WireReplay.Toml
