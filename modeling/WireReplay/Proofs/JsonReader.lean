import WireReplay.Proofs.Digits
import WireReplay.Report.Json
import WireReplay.Toml.Scalar

/-!
# Reading JSON

A reader for the part of JSON that reports are written in, with white space wherever JSON allows
it, all its escapes, and no more than one way to read a text. Whatever it reads is JSON; a sign, a
fraction, an exponent, a truth value and null are no part of it. What is written is read back,
whatever its strings hold and however deep it is nested.
-/

namespace WireReplay

theorem Toml.past?_cons_self (c : Char) (rest : List Char) : past? c (c :: rest) = some rest :=
  if_pos (beq_self_eq_true c)

namespace Json

def isSpace (c : Char) : Bool := c = ' ' || c = '\n' || c = '\r' || c = '\t'

def skipSpace (s : List Char) : List Char := s.dropWhile isSpace

def codeUnit? (digits : List Char) : Option Nat :=
  digits.foldlM (fun n c => (n * 16 + ·) <$> Toml.hexValue? c) 0

/-- Reads a character from its number of 16 bits, or from the two numbers of a pair. -/
def unicode? : List Char → Option (Char × List Char)
  | a :: b :: c :: d :: rest => do
    let unit ← codeUnit? [a, b, c, d]
    if unit < 0xD800 ∨ 0xDFFF < unit then some (Char.ofNat unit, rest)
    else
      match rest with
      | '\\' :: 'u' :: e :: f :: g :: h :: rest => do
        let second ← codeUnit? [e, f, g, h]
        if unit < 0xDC00 ∧ 0xDC00 ≤ second ∧ second ≤ 0xDFFF then
          some (Char.ofNat (0x10000 + (unit - 0xD800) * 0x400 + (second - 0xDC00)), rest)
        else none
      | _ => none
  | _ => none

def escaped? : Char → Option Char
  | '"' => some '"'
  | '\\' => some '\\'
  | '/' => some '/'
  | 'b' => some '\x08'
  | 'f' => some '\x0c'
  | 'n' => some '\n'
  | 'r' => some '\r'
  | 't' => some '\t'
  | _ => none

def character? : List Char → Option (Char × List Char)
  | '\\' :: 'u' :: rest => unicode? rest
  | '\\' :: c :: rest => (escaped? c).map (·, rest)
  | c :: rest => if c = '\\' ∨ c = '"' ∨ c.toNat < 32 then none else some (c, rest)
  | [] => none

def string? (s : List Char) : Option (List Char × List Char) :=
  if s.head? = some '"' then some ([], s.tail)
  else do
    let (c, rest) ← character? s
    if _h : rest.length < s.length then do
      let (text, rest) ← string? rest
      return (c :: text, rest)
    else none
termination_by s.length

/-- Reads a number. No zero stands in front of other digits. -/
def number? (s : List Char) : Option (Nat × List Char) :=
  match s with
  | '0' :: rest => some (0, rest)
  | _ =>
    match s.takeWhile Char.isDigit with
    | [] => none
    | digits => some (Nat.ofDigitChars 10 digits 0, s.dropWhile Char.isDigit)

/-- Reads items with commas between them, and the sign that closes them. -/
def items? {α : Type} (item? : List Char → Option (α × List Char)) (close : Char)
    (s : List Char) : Option (List α × List Char) := do
  let (item, rest) ← item? (skipSpace s)
  match skipSpace rest with
  | [] => none
  | c :: rest =>
    if c = close then return ([item], rest)
    else if _h : c = ',' ∧ rest.length < s.length then do
      let (items, rest) ← items? item? close rest
      return (item :: items, rest)
    else none
termination_by s.length

/-- Reads any number of items, up to the sign that closes them. -/
def listed? {α : Type} (item? : List Char → Option (α × List Char)) (close : Char)
    (s : List Char) : Option (List α × List Char) :=
  if (skipSpace s).head? = some close then some ([], (skipSpace s).tail)
  else items? item? close s

def field? (value? : List Char → Option (Json × List Char)) :
    List Char → Option ((String × Json) × List Char)
  | '"' :: s => do
    let (name, rest) ← string? s
    let (value, rest) ← value? (skipSpace (← Toml.past? ':' (skipSpace rest)))
    return ((String.ofList name, value), rest)
  | _ => none

/-- Reads a value in which others are nested less than so deep. -/
def value? : Nat → List Char → Option (Json × List Char)
  | 0, _ => none
  | depth + 1, s =>
    match s with
    | '"' :: rest => (string? rest).map fun (text, rest) => (.string (String.ofList text), rest)
    | '[' :: rest =>
      (listed? (value? depth) ']' rest).map fun (items, rest) => (.array items, rest)
    | '\x7b' :: rest =>
      (listed? (field? (value? depth)) '\x7d' rest).map fun (fields, rest) =>
        (.object fields, rest)
    | s => (number? s).map fun (n, rest) => (.number n, rest)

def parse? (text : String) : Option Json := do
  let (value, rest) ← value? text.toList.length (skipSpace text.toList)
  if skipSpace rest = [] then some value else none

theorem hexValue?_hexDigit {n : Nat} (h : n < 16) : Toml.hexValue? (hexDigit n) = some n := by
  revert n
  decide

theorem character?_escape_of_letter (rest : List Char) :
    ∀ c ∈ ['"', '\\', '\n', '\r', '\t', '\x08', '\x0c'],
      character? (escape c ++ rest) = some (c, rest) := by
  simp only [List.forall_mem_cons]
  exact ⟨rfl, rfl, rfl, rfl, rfl, rfl, rfl, nofun⟩

theorem character?_of_low {c : Char} (h : c.toNat < 32) (rest : List Char) :
    character? ('\\' :: 'u' :: '0' :: '0' :: hexDigit (c.toNat / 16) ::
      hexDigit (c.toNat % 16) :: rest) = some (c, rest) := by
  have hzero : Toml.hexValue? '0' = some 0 := by decide
  have hsum : c.toNat / 16 * 16 + c.toNat % 16 = c.toNat := by omega
  have hunit : codeUnit? ['0', '0', hexDigit (c.toNat / 16), hexDigit (c.toNat % 16)] =
      some c.toNat := by
    simp [codeUnit?, hzero, hexValue?_hexDigit (n := c.toNat / 16) (by omega),
      hexValue?_hexDigit (n := c.toNat % 16) (by omega), hsum]
  have hbound : c.toNat < 0xD800 ∨ 0xDFFF < c.toNat := .inl (by omega)
  rw [character?, unicode?, hunit, Option.bind_eq_bind, Option.bind_some, if_pos hbound,
    Char.ofNat_toNat]

theorem character?_of_plain {c : Char} (h : ¬ (c = '\\' ∨ c = '"' ∨ c.toNat < 32))
    (rest : List Char) : character? (c :: rest) = some (c, rest) := by
  have hback : c ≠ '\\' := fun hc => h (.inl hc)
  rw [character?, if_neg h]
  all_goals
    intros
    contradiction

theorem character?_escape (c : Char) (rest : List Char) :
    character? (escape c ++ rest) = some (c, rest) := by
  by_cases hletter : c ∈ ['"', '\\', '\n', '\r', '\t', '\x08', '\x0c']
  · exact character?_escape_of_letter rest c hletter
  · simp only [List.mem_cons, List.not_mem_nil, or_false, not_or] at hletter
    obtain ⟨hquote, hback, hline, hreturn, htab, hbackspace, hfeed⟩ := hletter
    rw [escape, if_neg hquote, if_neg hback, if_neg hline, if_neg hreturn, if_neg htab,
      if_neg hbackspace, if_neg hfeed]
    by_cases hlow : c.toNat < 32
    · rw [if_pos hlow]
      exact character?_of_low hlow rest
    · rw [if_neg hlow]
      exact character?_of_plain (by simp only [hback, hquote, hlow, or_self, not_false_eq_true]) rest

theorem escape_ne_nil (c : Char) : escape c ≠ [] := by
  unfold escape
  repeat' split
  all_goals exact List.cons_ne_nil _ _

theorem head?_ne_of_character {s rest : List Char} {c : Char}
    (h : character? s = some (c, rest)) : s.head? ≠ some '"' := by
  intro hquote
  obtain ⟨others, rfl⟩ := List.head?_eq_some_iff.mp hquote
  cases h

theorem string?_of_character {s rest text behind : List Char} {c : Char}
    (h : character? s = some (c, rest)) (hlt : rest.length < s.length)
    (hrest : string? rest = some (text, behind)) : string? s = some (c :: text, behind) := by
  rw [string?, if_neg (head?_ne_of_character h), h, Option.bind_eq_bind, Option.bind_some]
  dsimp only
  rw [dif_pos hlt, hrest]
  rfl

/-- A string is read back, whatever is in it. -/
theorem string?_flatMap_escape (text rest : List Char) :
    string? (text.flatMap escape ++ '"' :: rest) = some (text, rest) := by
  induction text with
  | nil =>
    rw [List.flatMap_nil, List.nil_append, string?, List.head?_cons, if_pos rfl, List.tail_cons]
  | cons c text ih =>
    have hpos : 0 < (escape c).length := List.length_pos_iff.mpr (escape_ne_nil c)
    rw [List.flatMap_cons, List.append_assoc]
    apply string?_of_character (character?_escape c _) _ ih
    simp only [List.length_append]
    omega

theorem number?_toDigits (n : Nat) {rest : List Char} (h : EndsDigits rest) :
    number? (Nat.toDigits 10 n ++ rest) = some (n, rest) := by
  cases n with
  | zero => rfl
  | succ m =>
    obtain ⟨c, others, hdigits, hc⟩ := toDigits_of_pos (Nat.succ_pos m)
    obtain ⟨htake, hdrop⟩ := takeWhile_digits (m + 1) h
    unfold number?
    split
    · rename_i heq
      rw [hdigits] at heq
      exact absurd (List.cons.inj heq).1 hc
    · rw [htake, hdrop]
      split
      · rename_i heq
        exact absurd heq Nat.toDigits_ne_nil
      · rw [Nat.ofDigitChars_ten_toDigits]

theorem skipSpace_newLine (depth : Nat) (s : List Char) :
    skipSpace (newLine depth ++ s) = skipSpace s := by
  have hall : ∀ c ∈ newLine depth, isSpace c = true := by
    intro c hc
    obtain rfl | hc := List.mem_cons.mp hc
    · rfl
    · rw [List.eq_of_mem_replicate hc]
      rfl
  exact List.dropWhile_append_of_pos hall

theorem skipSpace_cons {c : Char} (h : isSpace c = false) (s : List Char) :
    skipSpace (c :: s) = c :: s :=
  List.dropWhile_cons_of_neg (by simp [h])

section Items

variable {α : Type} {item? : List Char → Option (α × List Char)} {close : Char} {x : α}
  {xs : List α} {s middle rest : List Char}

theorem items?_of_last (h : item? (skipSpace s) = some (x, middle))
    (hclose : skipSpace middle = close :: rest) : items? item? close s = some ([x], rest) := by
  rw [items?, h, Option.bind_eq_bind, Option.bind_some]
  dsimp only
  rw [hclose]
  dsimp only
  rw [if_pos rfl]
  rfl

theorem items?_of_more {behind : List Char} (h : item? (skipSpace s) = some (x, middle))
    (hcomma : skipSpace middle = ',' :: rest) (hclose : close ≠ ',')
    (hlt : rest.length < s.length) (hrest : items? item? close rest = some (xs, behind)) :
    items? item? close s = some (x :: xs, behind) := by
  rw [items?, h, Option.bind_eq_bind, Option.bind_some]
  dsimp only
  rw [hcomma]
  dsimp only
  rw [if_neg (Ne.symm hclose), dif_pos ⟨rfl, hlt⟩, hrest]
  rfl

theorem items?_of_lines {write : α → List Char} (depth outer : Nat) (x : α) (xs : List α)
    (hread : ∀ y ∈ x :: xs, ∀ rest, EndsDigits rest → item? (write y ++ rest) = some (y, rest))
    (hspace : ∀ y rest, skipSpace (write y ++ rest) = write y ++ rest)
    (hclose : close ≠ ',') (hnoSpace : isSpace close = false) (rest : List Char) :
    items? item? close (newLine depth ++ (write x ++
      (xs.flatMap (fun y => ',' :: (newLine depth ++ write y)) ++
        (newLine outer ++ close :: rest)))) = some (x :: xs, rest) := by
  induction xs generalizing x with
  | nil =>
    have hfirst := hread x List.mem_cons_self (newLine outer ++ close :: rest)
      (endsDigits_cons (by decide) _)
    rw [List.flatMap_nil, List.nil_append]
    refine items?_of_last ?_ ((skipSpace_newLine outer _).trans (skipSpace_cons hnoSpace rest))
    rw [skipSpace_newLine, hspace, hfirst]
  | cons y xs ih =>
    have hbehind := ih y fun z hz => hread z (List.mem_cons_of_mem _ hz)
    have hfirst := hread x List.mem_cons_self
    simp only [List.flatMap_cons, List.cons_append, List.append_assoc]
    refine items?_of_more ?_ (skipSpace_cons (by decide) _) hclose ?_ hbehind
    · rw [skipSpace_newLine, hspace, hfirst _ (endsDigits_cons (by decide) _)]
    · simp only [List.length_append, List.length_cons]
      omega

end Items

theorem isSpace_of_isDigit {c : Char} (h : c.isDigit = true) : isSpace c = false := by
  have hne (d : Char) (hd : d.isDigit = false) : c ≠ d := ne_of_test h hd
  simp only [isSpace, hne ' ' rfl, hne '\n' rfl, hne '\r' rfl, hne '\t' rfl, decide_false,
    Bool.or_self]

theorem render_number (depth n : Nat) : render depth (number n) = Nat.toDigits 10 n := by
  rw [render, Nat.toString_eq_repr, Nat.toList_repr]

def renderField (depth : Nat) (field : String × Json) : List Char :=
  quote field.1 ++ [':', ' '] ++ render depth field.2

theorem renderItems_eq (depth : Nat) (items : List Json) :
    renderItems depth items =
      items.flatMap fun item => ',' :: (newLine depth ++ render depth item) := by
  induction items with
  | nil => rfl
  | cons item items ih =>
    rw [renderItems, ih, List.flatMap_cons]
    simp only [List.cons_append, List.append_assoc]

theorem renderFields_eq (depth : Nat) (fields : List (String × Json)) :
    renderFields depth fields =
      fields.flatMap fun field => ',' :: (newLine depth ++ renderField depth field) := by
  induction fields with
  | nil => rfl
  | cons field fields ih =>
    rw [renderFields, ih, List.flatMap_cons, renderField]
    simp only [List.cons_append, List.append_assoc]

/-- No value begins with white space, or like the end of a list. -/
theorem render_eq_cons (depth : Nat) (j : Json) :
    ∃ c rest, render depth j = c :: rest ∧ isSpace c = false ∧ c ≠ ']' := by
  cases j with
  | number n =>
    rw [render_number]
    cases hdigits : Nat.toDigits 10 n with
    | nil => exact absurd hdigits Nat.toDigits_ne_nil
    | cons c rest =>
      have hc : c.isDigit = true := isDigit_of_mem_toDigits (hdigits ▸ List.mem_cons_self)
      refine ⟨c, rest, rfl, isSpace_of_isDigit hc, ?_⟩
      rintro rfl
      exact absurd hc (by decide)
  | string s => exact ⟨_, _, rfl, rfl, by decide⟩
  | array items => cases items <;> exact ⟨_, _, rfl, rfl, by decide⟩
  | object fields => cases fields <;> exact ⟨_, _, rfl, rfl, by decide⟩

theorem skipSpace_render (depth : Nat) (j : Json) (rest : List Char) :
    skipSpace (render depth j ++ rest) = render depth j ++ rest := by
  obtain ⟨c, others, hrender, hspace, -⟩ := render_eq_cons depth j
  rw [hrender, List.cons_append, skipSpace_cons hspace]

theorem field?_renderField {read : List Char → Option (Json × List Char)} {depth : Nat}
    {field : String × Json} {rest : List Char}
    (hread : read (render depth field.2 ++ rest) = some (field.2, rest)) :
    field? read (renderField depth field ++ rest) = some (field, rest) := by
  have hname : string? (field.1.toList.flatMap escape ++ '"' :: (':' :: ' ' ::
      (render depth field.2 ++ rest))) = some (field.1.toList, ':' :: ' ' ::
      (render depth field.2 ++ rest)) := string?_flatMap_escape _ _
  have hspace : skipSpace (' ' :: (render depth field.2 ++ rest)) = render depth field.2 ++ rest :=
    skipSpace_render depth field.2 rest
  simp only [renderField, quote, List.cons_append, List.append_assoc, List.nil_append]
  rw [field?, hname, Option.bind_eq_bind, Option.bind_some]
  dsimp only
  rw [skipSpace_cons (by decide), Toml.past?_cons_self, Option.bind_eq_bind, Option.bind_some,
    hspace, hread, Option.bind_eq_bind, Option.bind_some, String.ofList_toList]
  rfl

theorem length_le_of_mem {α : Type} {xs : List α} {x : α} (h : x ∈ xs) (write : α → List Char) :
    (write x).length ≤ (xs.flatMap write).length := by
  obtain ⟨before, behind, rfl⟩ := List.append_of_mem h
  simp only [List.flatMap_append, List.flatMap_cons, List.length_append]
  omega

theorem listed?_of_lines {α : Type} {item? : List Char → Option (α × List Char)} {close : Char}
    {write : α → List Char} (depth outer : Nat) (x : α) (xs : List α)
    (hread : ∀ y ∈ x :: xs, ∀ rest, EndsDigits rest → item? (write y ++ rest) = some (y, rest))
    (hspace : ∀ y rest, skipSpace (write y ++ rest) = write y ++ rest)
    (hfirst : ∀ rest, (write x ++ rest).head? ≠ some close)
    (hclose : close ≠ ',') (hnoSpace : isSpace close = false) (rest : List Char) :
    listed? item? close (newLine depth ++ (write x ++
      (xs.flatMap (fun y => ',' :: (newLine depth ++ write y)) ++
        (newLine outer ++ close :: rest)))) = some (x :: xs, rest) := by
  have hitems := items?_of_lines depth outer x xs hread hspace hclose hnoSpace rest
  rw [listed?, if_neg, hitems]
  rw [skipSpace_newLine, hspace]
  exact hfirst _

theorem length_item_lt (depth : Nat) {item y : Json} {items : List Json} (h : y ∈ item :: items) :
    (render (depth + 1) y).length < (render depth (array (item :: items))).length := by
  rw [render, renderItems_eq]
  simp only [List.cons_append, List.length_append, List.length_cons]
  obtain rfl | hy := List.mem_cons.mp h
  · omega
  · have hline := length_le_of_mem hy fun y => ',' :: (newLine (depth + 1) ++ render (depth + 1) y)
    simp only [List.length_append, List.length_cons] at hline
    omega

theorem length_field_lt (depth : Nat) {field y : String × Json} {fields : List (String × Json)}
    (h : y ∈ field :: fields) :
    (render (depth + 1) y.2).length < (render depth (object (field :: fields))).length := by
  rw [render, renderFields_eq]
  simp only [List.cons_append, List.length_append, List.length_cons]
  obtain rfl | hy := List.mem_cons.mp h
  · omega
  · have hline := length_le_of_mem hy fun y => ',' :: (newLine (depth + 1) ++ renderField (depth + 1) y)
    rw [List.length_cons, List.length_append, renderField, List.length_append] at hline
    omega

section Values

variable {n m : Nat} {s rest : List Char}

theorem value?_of_number (h : number? s = some (m, rest))
    (hdigit : ∀ c ∈ s.head?, c.isDigit = true) : value? (n + 1) s = some (number m, rest) := by
  unfold value?
  split
  · exact absurd (hdigit _ rfl) (by decide)
  · exact absurd (hdigit _ rfl) (by decide)
  · exact absurd (hdigit _ rfl) (by decide)
  · rw [h]
    rfl

theorem value?_of_array {items : List Json} (h : listed? (value? n) ']' s = some (items, rest)) :
    value? (n + 1) ('[' :: s) = some (array items, rest) := by
  rw [value?, h]
  rfl

theorem value?_of_object {fields : List (String × Json)}
    (h : listed? (field? (value? n)) '\x7d' s = some (fields, rest)) :
    value? (n + 1) ('\x7b' :: s) = some (object fields, rest) := by
  rw [value?, h]
  rfl

theorem value?_quote (text : String) (rest : List Char) :
    value? (n + 1) (quote text ++ rest) = some (string text, rest) := by
  have hstring := string?_flatMap_escape text.toList rest
  rw [quote]
  simp only [List.cons_append, List.append_assoc, List.nil_append]
  rw [value?, hstring, Option.map_some]
  dsimp only
  rw [String.ofList_toList]

end Values

/-- A value is read back that is nested less deep than its text is long. What is nested in it has a
shorter text. -/
theorem value?_render {n depth : Nat} {j : Json} (hn : (render depth j).length ≤ n)
    {rest : List Char} (hrest : EndsDigits rest) :
    value? n (render depth j ++ rest) = some (j, rest) := by
  induction n generalizing depth j rest with
  | zero =>
    obtain ⟨c, others, hrender, -⟩ := render_eq_cons depth j
    rw [hrender] at hn
    cases hn
  | succ n ih =>
    cases j with
    | number m =>
      rw [render_number]
      refine value?_of_number (number?_toDigits m hrest) fun c hc => ?_
      rw [List.head?_append, List.head?_eq_some_head Nat.toDigits_ne_nil, Option.some_or] at hc
      exact isDigit_of_mem_toDigits (Option.mem_some.mp hc ▸ List.head_mem _)
    | string text => exact value?_quote text rest
    | array items =>
      cases items with
      | nil => rfl
      | cons item items =>
        have hread (y : Json) (hy : y ∈ item :: items) (rest : List Char)
            (hrest : EndsDigits rest) :
            value? n (render (depth + 1) y ++ rest) = some (y, rest) := by
          have hlength := length_item_lt depth hy
          exact ih (by omega) hrest
        have hfirst (rest : List Char) :
            (render (depth + 1) item ++ rest).head? ≠ some ']' := by
          obtain ⟨c, others, hrender, -, hclose⟩ := render_eq_cons (depth + 1) item
          rw [hrender, List.cons_append, List.head?_cons, Ne, Option.some_inj]
          exact hclose
        have hlisted := listed?_of_lines (depth + 1) depth item items hread
          (skipSpace_render (depth + 1)) hfirst (by decide) (by decide) rest
        rw [render, renderItems_eq]
        simp only [List.cons_append, List.append_assoc, List.nil_append]
        exact value?_of_array hlisted
    | object fields =>
      cases fields with
      | nil => rfl
      | cons field fields =>
        have hread (y : String × Json) (hy : y ∈ field :: fields) (rest : List Char)
            (hrest : EndsDigits rest) :
            field? (value? n) (renderField (depth + 1) y ++ rest) = some (y, rest) := by
          have hlength := length_field_lt depth hy
          exact field?_renderField (ih (by omega) hrest)
        have hlisted : listed? (field? (value? n)) '\x7d' _ = some (field :: fields, rest) :=
          listed?_of_lines (depth + 1) depth field fields hread (fun _ _ => rfl)
            (fun _ h => absurd (Option.some.inj (h : some '"' = some '\x7d')) (by decide))
            (by decide) (by decide) rest
        rw [render, renderFields_eq]
        simp only [renderField, List.cons_append, List.append_assoc, List.nil_append] at hlisted ⊢
        exact value?_of_object hlisted

theorem parse?_pretty (j : Json) : parse? j.pretty = some j := by
  have hread := value?_render (Nat.le_refl (render 0 j).length) endsDigits_nil
  have hspace := skipSpace_render 0 j []
  rw [List.append_nil] at hread hspace
  rw [parse?, pretty, String.toList_ofList, hspace, hread]
  rfl

end Json

end WireReplay
