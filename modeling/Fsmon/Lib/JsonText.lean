/-
# `Fsmon.Lib.JsonText` — values of JSON, and the texts that stand for them

Texts without blanks, as serializers write them, and numbers that are integers
of 64 bits.  The grammar says what a text stands for; the reader goes down one
bracket at a time, as deep as it may.

    Value                   the values
    Spells                  one character of a string, as it is or escaped
    Denotes                 the text stands for the value, with so many brackets at most
    readValue               the reader of what a text begins with;  `read` of a whole text
    readValue_of_denotes    what a text stands for is what is read
    read_of_denotes         the same, for a whole text
    member                  the value under a name
-/
import Mathlib.Data.List.Forall2

namespace Fsmon.JsonText

def quote : Char := Char.ofNat 0x22

def backslash : Char := Char.ofNat 0x5C

def openBrace : Char := Char.ofNat 0x7B

def closeBrace : Char := Char.ofNat 0x7D

inductive Value where
  | null
  | bool (b : Bool)
  | number (n : Int)
  | string (s : List Char)
  | array (vs : List Value)
  | object (ms : List (List Char × Value))

/-! ## The grammar -/

/-- The escapes of one letter. -/
def SHORT : List (Char × Char) :=
  [(quote, quote), (backslash, backslash), ('/', '/'), ('b', Char.ofNat 0x08), ('f', Char.ofNat 0x0C),
    ('n', '\n'), ('r', '\r'), ('t', '\t')]

def hexDigit (c : Char) : Option Nat :=
  if c.isDigit then some (c.toNat - 0x30)
  else if 'a' ≤ c ∧ c ≤ 'f' then some (c.toNat - 0x57)
  else if 'A' ≤ c ∧ c ≤ 'F' then some (c.toNat - 0x37)
  else none

/-- Four digits of a number in base 16. -/
def hex (x₁ x₂ x₃ x₄ : Char) : Option Nat :=
  (hexDigit x₁).bind fun d₁ => (hexDigit x₂).bind fun d₂ => (hexDigit x₃).bind fun d₃ =>
    (hexDigit x₄).map fun d₄ => ((d₁ * 16 + d₂) * 16 + d₃) * 16 + d₄

/-- The text spells the character inside a string. -/
inductive Spells : Char → List Char → Prop
  | plain {c : Char} (hquote : c ≠ quote) (hback : c ≠ backslash) (hcontrol : 0x20 ≤ c.toNat) :
      Spells c [c]
  | short {l c : Char} (h : SHORT.lookup l = some c) : Spells c [backslash, l]
  | unicode {x₁ x₂ x₃ x₄ c : Char} (h : hex x₁ x₂ x₃ x₄ = some c.toNat) :
      Spells c [backslash, 'u', x₁, x₂, x₃, x₄]

/-- A string between its quotation marks. -/
def StringText (s text : List Char) : Prop :=
  ∃ parts, List.Forall₂ Spells s parts ∧ text = quote :: (parts.flatten ++ [quote])

def decimal : Int → List Char
  | .ofNat n => Nat.toDigits 10 n
  | .negSucc n => '-' :: Nat.toDigits 10 (n + 1)

/-- Texts with commas between them. -/
def commas : List (List Char) → List Char
  | [] => []
  | [t] => t
  | t :: ts => t ++ ',' :: commas ts

/-- The integers that are read as such: those of `i64` and of `u64`. -/
def I64_MIN : Int := -9223372036854775808

def U64_MAX : Int := 18446744073709551615

/-- A name and a value. -/
def MemberText (denotes : Value → List Char → Prop) (m : List Char × Value) (text : List Char) : Prop :=
  ∃ name value, StringText m.1 name ∧ denotes m.2 value ∧ text = name ++ ':' :: value

/-- The text stands for the value, and opens no more than so many brackets at a time. -/
def Denotes : Nat → Value → List Char → Prop
  | _, .null, text => text = "null".toList
  | _, .bool b, text => text = (toString b).toList
  | _, .number n, text => I64_MIN ≤ n ∧ n ≤ U64_MAX ∧ text = decimal n
  | _, .string s, text => StringText s text
  | 0, .array _, _ => False
  | 0, .object _, _ => False
  | depth + 1, .array vs, text =>
      ∃ ts, List.Forall₂ (Denotes depth) vs ts ∧ text = '[' :: (commas ts ++ [']'])
  | depth + 1, .object ms, text =>
      ∃ ts, List.Forall₂ (MemberText (Denotes depth)) ms ts ∧
        text = openBrace :: (commas ts ++ [closeBrace])

/-! ## The reader -/

/-- One character of a string. -/
def readChar : List Char → Option (Char × List Char)
  | [] => none
  | c :: t =>
      if c = backslash then
        match t with
        | [] => none
        | l :: t =>
            if l = 'u' then
              match t with
              | x₁ :: x₂ :: x₃ :: x₄ :: t =>
                  (hex x₁ x₂ x₃ x₄).bind fun n => if n.isValidChar then some (Char.ofNat n, t) else none
              | _ => none
            else (SHORT.lookup l).map fun c => (c, t)
      else if c = quote ∨ c.toNat < 0x20 then none
      else some (c, t)

/-- The characters up to the quotation mark. -/
def readChars : Nat → List Char → Option (List Char × List Char)
  | 0, _ => none
  | fuel + 1, t =>
      if t.head? = some quote then some ([], t.tail)
      else (readChar t).bind fun r => (readChars fuel r.2).map fun q => (r.1 :: q.1, q.2)

def readString : List Char → Option (List Char × List Char)
  | [] => none
  | c :: t => if c = quote then readChars t.length t else none

/-- Digits without a leading zero. -/
def readDigits (t : List Char) : Option (Nat × List Char) :=
  let n := Nat.ofDigitChars 10 (t.takeWhile Char.isDigit) 0
  if Nat.toDigits 10 n = t.takeWhile Char.isDigit then some (n, t.dropWhile Char.isDigit) else none

def readNumber (t : List Char) : Option (Int × List Char) :=
  if t.head? = some '-' then (readDigits t.tail).map fun r => (-(r.1 : Int), r.2)
  else (readDigits t).map fun r => ((r.1 : Int), r.2)

section
variable {α : Type*} (item : List Char → Option (α × List Char)) (close : Char)

/-- Items with commas between them, up to the closing bracket. -/
def readMany : Nat → List Char → Option (List α × List Char)
  | 0, _ => none
  | fuel + 1, t =>
      (item t).bind fun r =>
        if r.2.head? = some close then some ([r.1], r.2.tail)
        else if r.2.head? = some ',' then
          (readMany fuel r.2.tail).map fun q => (r.1 :: q.1, q.2)
        else none

def readList (t : List Char) : Option (List α × List Char) :=
  if t.head? = some close then some ([], t.tail) else readMany item close t.length t

end

/-- A name and what is behind the colon. -/
def readMember (value : List Char → Option (Value × List Char)) (t : List Char) :
    Option ((List Char × Value) × List Char) :=
  (readString t).bind fun name =>
    if name.2.head? = some ':' then
      (value name.2.tail).map fun v => ((name.1, v.1), v.2)
    else none

/-- A value without brackets. -/
def readScalar (t : List Char) : Option (Value × List Char) :=
  if t.head? = some quote then (readString t).map fun r => (.string r.1, r.2)
  else if "null".toList.isPrefixOf t then some (.null, t.drop 4)
  else if "true".toList.isPrefixOf t then some (.bool true, t.drop 4)
  else if "false".toList.isPrefixOf t then some (.bool false, t.drop 5)
  else (readNumber t).map fun r => (.number r.1, r.2)

def readValue : Nat → List Char → Option (Value × List Char)
  | 0, t => readScalar t
  | depth + 1, t =>
      if t.head? = some '[' then
        (readList (readValue depth) ']' t.tail).map fun r => (.array r.1, r.2)
      else if t.head? = some openBrace then
        (readList (readMember (readValue depth)) closeBrace t.tail).map fun r => (.object r.1, r.2)
      else readScalar t

/-- A whole text. -/
def read (depth : Nat) (t : List Char) : Option Value :=
  (readValue depth t).bind fun r => if r.2 = [] then some r.1 else none

/-! ## What is read -/

/-- What can stand behind a value. -/
def Ends (rest : List Char) : Prop := ∀ c ∈ rest.head?, c = ',' ∨ c = ']' ∨ c = closeBrace

/-- The reader finds the item at the head of a text, and the item does not look like an end. -/
structure Reads {α : Type*} (item : List Char → Option (α × List Char)) (a : α) (t : List Char) : Prop where
  reads : ∀ rest, Ends rest → item (t ++ rest) = some (a, rest)
  starts : ∃ c r, t = c :: r ∧ c ≠ ']' ∧ c ≠ closeBrace

theorem Ends.cons {c : Char} {rest : List Char} (h : c = ',' ∨ c = ']' ∨ c = closeBrace) :
    Ends (c :: rest) := by
  intro d hd
  rw [List.head?_cons, Option.mem_some] at hd
  exact hd ▸ h

/-! ## Strings -/

theorem readChar_of_spells {c : Char} {t : List Char} (h : Spells c t) (rest : List Char) :
    readChar (t ++ rest) = some (c, rest) := by
  cases h with
  | plain hquote hback hcontrol =>
      have hplain : ¬ (c = quote ∨ c.toNat < 0x20) := by
        rintro (h | h)
        · exact hquote h
        · omega
      simp only [List.singleton_append, readChar, if_neg hback, if_neg hplain]
  | @short l _ h =>
      have hu : l ≠ 'u' := by
        rintro rfl
        cases h
      simp [readChar, hu, h]
  | @unicode x₁ x₂ x₃ x₄ _ h =>
      have hvalid : c.toNat.isValidChar := c.valid
      simp [readChar, h, hvalid]

theorem Spells.head {c : Char} {t : List Char} (h : Spells c t) :
    ∃ d r, t = d :: r ∧ d ≠ quote := by
  cases h with
  | plain hquote _ _ => exact ⟨_, _, rfl, hquote⟩
  | short _ => exact ⟨_, _, rfl, by decide⟩
  | unicode _ => exact ⟨_, _, rfl, by decide⟩

theorem length_le_of_spells {s : List Char} {parts : List (List Char)}
    (h : List.Forall₂ Spells s parts) : s.length ≤ parts.flatten.length := by
  induction h with
  | nil => exact Nat.le_refl _
  | cons hc _ ih =>
      obtain ⟨d, r, rfl, _⟩ := hc.head
      rw [List.length_cons, List.flatten_cons, List.length_append, List.length_cons]
      omega

theorem readChars_of_spells {s : List Char} {parts : List (List Char)}
    (h : List.Forall₂ Spells s parts) (rest : List Char) :
    ∀ fuel, s.length < fuel → readChars fuel (parts.flatten ++ quote :: rest) = some (s, rest) := by
  induction h with
  | nil =>
      intro fuel hfuel
      obtain ⟨fuel, rfl⟩ := Nat.exists_eq_succ_of_ne_zero (Nat.ne_of_gt hfuel)
      rw [List.flatten_nil, List.nil_append, readChars, List.head?_cons, if_pos rfl,
        List.tail_cons]
  | @cons c t s parts hc _ ih =>
      intro fuel hfuel
      rw [List.length_cons] at hfuel
      obtain ⟨fuel, rfl⟩ := Nat.exists_eq_succ_of_ne_zero (Nat.ne_of_gt (Nat.zero_lt_of_lt hfuel))
      have hhead : (t ++ (parts.flatten ++ quote :: rest)).head? ≠ some quote := by
        obtain ⟨d, r, rfl, hd⟩ := hc.head
        exact fun h => hd (Option.some.inj h)
      rw [List.flatten_cons, List.append_assoc, readChars, if_neg hhead, readChar_of_spells hc,
        Option.bind_some, ih fuel (by omega)]
      rfl

theorem readString_of_text {s text : List Char} (h : StringText s text) (rest : List Char) :
    readString (text ++ rest) = some (s, rest) := by
  obtain ⟨parts, hparts, rfl⟩ := h
  have hlength := length_le_of_spells hparts
  rw [List.cons_append, List.append_assoc, List.singleton_append, readString, if_pos rfl]
  refine readChars_of_spells hparts rest _ ?_
  rw [List.length_append, List.length_cons]
  omega

theorem StringText.head {s text : List Char} (h : StringText s text) : ∃ r, text = quote :: r := by
  obtain ⟨parts, _, rfl⟩ := h
  exact ⟨_, rfl⟩

/-! ## Numbers -/

/-- Behind a value stands no digit. -/
theorem Ends.not_digit {rest : List Char} (h : Ends rest) : rest.takeWhile Char.isDigit = [] := by
  cases rest with
  | nil => rfl
  | cons c rest =>
      have hc : c.isDigit = false := by
        rcases h c rfl with rfl | rfl | rfl <;> rfl
      rw [List.takeWhile_cons, if_neg (by rw [hc]; exact Bool.false_ne_true)]

theorem readDigits_toDigits (n : Nat) {rest : List Char} (h : Ends rest) :
    readDigits (Nat.toDigits 10 n ++ rest) = some (n, rest) := by
  have hdigits : ∀ c ∈ Nat.toDigits 10 n, c.isDigit = true := fun c hc =>
    Nat.isDigit_of_mem_toDigits (by decide) (by decide) hc
  have htake : (Nat.toDigits 10 n ++ rest).takeWhile Char.isDigit = Nat.toDigits 10 n := by
    rw [List.takeWhile_append_of_pos hdigits, h.not_digit, List.append_nil]
  have hdrop : (Nat.toDigits 10 n ++ rest).dropWhile Char.isDigit = rest := by
    have hwhole := List.takeWhile_append_dropWhile (p := Char.isDigit) (l := Nat.toDigits 10 n ++ rest)
    rw [htake] at hwhole
    exact List.append_cancel_left hwhole
  simp only [readDigits, htake, hdrop, Nat.ofDigitChars_ten_toDigits, if_true]

/-- A number begins with a digit or its sign. -/
theorem decimal_head (n : Int) : ∃ c r, decimal n = c :: r ∧ (c = '-' ∨ c.isDigit = true) := by
  cases n with
  | ofNat n =>
      cases hdigits : Nat.toDigits 10 n with
      | nil => exact absurd hdigits Nat.toDigits_ne_nil
      | cons c r =>
          refine ⟨c, r, hdigits, .inr ?_⟩
          exact @Nat.isDigit_of_mem_toDigits 10 n c (by decide) (by decide)
            (hdigits ▸ List.mem_cons_self)
  | negSucc n => exact ⟨_, _, rfl, .inl rfl⟩

theorem readNumber_decimal (n : Int) {rest : List Char} (h : Ends rest) :
    readNumber (decimal n ++ rest) = some (n, rest) := by
  cases n with
  | ofNat n =>
      have hsign : (Nat.toDigits 10 n ++ rest).head? ≠ some '-' := by
        obtain ⟨c, r, hdigits⟩ := List.exists_cons_of_ne_nil (@Nat.toDigits_ne_nil n 10)
        have hc := @Nat.isDigit_of_mem_toDigits 10 n c (by decide) (by decide)
          (hdigits ▸ List.mem_cons_self)
        rw [hdigits]
        intro h
        rw [Option.some.inj h] at hc
        cases hc
      rw [decimal, readNumber, if_neg hsign, readDigits_toDigits n h]
      rfl
  | negSucc n =>
      rw [decimal, List.cons_append, readNumber, List.head?_cons, if_pos rfl, List.tail_cons,
        readDigits_toDigits (n + 1) h]
      rfl

/-! ## Brackets -/

section
variable {α : Type*} {item : List Char → Option (α × List Char)} {close : Char}

theorem commas_head {t : List Char} (ts : List (List Char)) :
    commas (t :: ts) = t ++ (if ts = [] then [] else ',' :: commas ts) := by
  cases ts with
  | nil => exact (List.append_nil t).symm
  | cons u ts => rfl

theorem length_le_commas {as : List α} {ts : List (List Char)} (h : List.Forall₂ (Reads item) as ts) :
    as.length ≤ (commas ts).length := by
  induction h with
  | nil => exact Nat.le_refl _
  | @cons a t as ts hat hrest ih =>
      obtain ⟨c, r, rfl, _⟩ := hat.starts
      rw [commas_head, List.length_append, List.length_cons, List.length_cons]
      cases hrest with
      | nil => exact Nat.le_add_left _ _
      | cons _ _ =>
          rw [if_neg (List.cons_ne_nil _ _), List.length_cons (a := ',')]
          omega

theorem readMany_of_reads (hclose : close = ']' ∨ close = closeBrace) (rest : List Char)
    {a : α} {as : List α} {t : List Char} {ts : List (List Char)} (hat : Reads item a t)
    (h : List.Forall₂ (Reads item) as ts) : ∀ fuel, as.length < fuel →
      readMany item close fuel (commas (t :: ts) ++ close :: rest) = some (a :: as, rest) := by
  have hcomma : close ≠ ',' := by
    rcases hclose with rfl | rfl <;> decide
  induction h generalizing a t with
  | nil =>
      intro fuel hfuel
      obtain ⟨fuel, rfl⟩ := Nat.exists_eq_succ_of_ne_zero (Nat.ne_of_gt hfuel)
      rw [readMany, commas, hat.reads _ (.cons (.inr hclose)), Option.bind_some, List.head?_cons,
        if_pos rfl, List.tail_cons]
  | @cons b u as ts hbu _ ih =>
      intro fuel hfuel
      rw [List.length_cons] at hfuel
      obtain ⟨fuel, rfl⟩ := Nat.exists_eq_succ_of_ne_zero (Nat.ne_of_gt (Nat.zero_lt_of_lt hfuel))
      rw [readMany, commas_head, if_neg (List.cons_ne_nil _ _), List.append_assoc, List.cons_append,
        hat.reads _ (.cons (.inl rfl)),
        Option.bind_some, List.head?_cons, if_neg fun h => hcomma (Option.some.inj h).symm, if_pos rfl,
        List.tail_cons, ih hbu fuel (by omega)]
      rfl

/-- A list of items in brackets, behind the opening one. -/
theorem readList_of_reads (hclose : close = ']' ∨ close = closeBrace) {as : List α}
    {ts : List (List Char)} (h : List.Forall₂ (Reads item) as ts) (rest : List Char) :
    readList item close (commas ts ++ close :: rest) = some (as, rest) := by
  cases h with
  | nil => rw [readList, commas, List.nil_append, List.head?_cons, if_pos rfl, List.tail_cons]
  | @cons a t as ts hat hrest =>
      have hhead : (commas (t :: ts) ++ close :: rest).head? ≠ some close := by
        obtain ⟨c, r, rfl, hbracket, hbrace⟩ := hat.starts
        rw [commas_head]
        intro h
        obtain rfl : c = close := Option.some.inj h
        exact hclose.elim hbracket hbrace
      have hlength := length_le_commas (.cons hat hrest)
      rw [readList, if_neg hhead]
      refine readMany_of_reads hclose rest hat hrest _ ?_
      rw [List.length_cons] at hlength
      rw [List.length_append, List.length_cons]
      omega

end

/-! ## Values -/

theorem readMember_of_text {value : List Char → Option (Value × List Char)}
    {denotes : Value → List Char → Prop} (h : ∀ v t, denotes v t → Reads value v t)
    {m : List Char × Value} {t : List Char} (hm : MemberText denotes m t) :
    Reads (readMember value) m t := by
  obtain ⟨name, v, hname, hv, rfl⟩ := hm
  constructor
  · intro rest hrest
    rw [readMember, List.append_assoc, List.cons_append, readString_of_text hname, Option.bind_some,
      List.head?_cons, if_pos rfl, List.tail_cons, (h _ _ hv).reads rest hrest]
    rfl
  · obtain ⟨r, rfl⟩ := hname.head
    exact ⟨quote, _, rfl, by decide, by decide⟩

/-- A text that opens no bracket is read in the same way at every depth. -/
theorem readValue_scalar {t : List Char} (hbracket : t.head? ≠ some '[')
    (hbrace : t.head? ≠ some openBrace) : ∀ depth, readValue depth t = readScalar t
  | 0 => rfl
  | depth + 1 => by rw [readValue, if_neg hbracket, if_neg hbrace]

/-- As `readValue_of_denotes`, for the values without brackets. -/
theorem reads_scalar {v : Value} {t : List Char} (depth : Nat)
    (hread : ∀ rest, Ends rest → readScalar (t ++ rest) = some (v, rest))
    (hstart : ∃ c r, t = c :: r ∧ c ∉ ['[', openBrace, ']', closeBrace]) : Reads (readValue depth) v t := by
  obtain ⟨c, r, rfl, hc⟩ := hstart
  simp only [List.mem_cons, List.not_mem_nil, or_false, not_or] at hc
  refine ⟨fun rest hrest => ?_, c, r, rfl, hc.2.2.1, hc.2.2.2⟩
  have hbracket : (c :: r ++ rest).head? ≠ some '[' := fun h => hc.1 (Option.some.inj h)
  have hbrace : (c :: r ++ rest).head? ≠ some openBrace := fun h => hc.2.1 (Option.some.inj h)
  rw [readValue_scalar hbracket hbrace, hread rest hrest]

theorem readScalar_number (n : Int) {rest : List Char} (h : Ends rest) :
    readScalar (decimal n ++ rest) = some (.number n, rest) := by
  have hread := readNumber_decimal n h
  obtain ⟨c, r, heq, hc⟩ := decimal_head n
  have hne : ∀ d : Char, d ≠ '-' → d.isDigit = false → c ≠ d := by
    rintro d hsign hdigit rfl
    rcases hc with hc | hc
    · exact hsign hc
    · rw [hdigit] at hc
      cases hc
  have hword : ∀ d w, c ≠ d → (d :: w).isPrefixOf (c :: r ++ rest) = false := by
    intro d w hd
    rw [List.cons_append, List.isPrefixOf_cons_cons, beq_eq_false_iff_ne.2 hd.symm, Bool.false_and]
  rw [heq] at hread ⊢
  have hquote : (c :: r ++ rest).head? ≠ some quote := fun h =>
    hne quote (by decide) (by decide) (Option.some.inj h)
  have hnull : "null".toList.isPrefixOf (c :: r ++ rest) = false :=
    hword 'n' _ (hne _ (by decide) (by decide))
  have htrue : "true".toList.isPrefixOf (c :: r ++ rest) = false :=
    hword 't' _ (hne _ (by decide) (by decide))
  have hfalse : "false".toList.isPrefixOf (c :: r ++ rest) = false :=
    hword 'f' _ (hne _ (by decide) (by decide))
  rw [readScalar, if_neg hquote, hnull, htrue, hfalse, hread]
  rfl

theorem reads_number (depth : Nat) (n : Int) : Reads (readValue depth) (.number n) (decimal n) := by
  refine reads_scalar depth (fun rest hrest => readScalar_number n hrest) ?_
  obtain ⟨c, r, heq, hc⟩ := decimal_head n
  refine ⟨c, r, heq, fun hmem => ?_⟩
  simp only [List.mem_cons, List.not_mem_nil, or_false] at hmem
  rcases hc with rfl | hc
  · revert hmem
    decide
  · rcases hmem with rfl | rfl | rfl | rfl <;> cases hc

theorem reads_string (depth : Nat) {s t : List Char} (h : StringText s t) :
    Reads (readValue depth) (.string s) t := by
  obtain ⟨r, rfl⟩ := h.head
  refine reads_scalar depth (fun rest _ => ?_) ⟨quote, r, rfl, by decide⟩
  rw [readScalar, if_pos (by rfl), readString_of_text h]
  rfl

theorem reads_bool (depth : Nat) (b : Bool) :
    Reads (readValue depth) (.bool b) (toString b).toList := by
  cases b with
  | true => exact reads_scalar depth (fun rest _ => rfl) ⟨'t', _, rfl, by decide⟩
  | false => exact reads_scalar depth (fun rest _ => rfl) ⟨'f', _, rfl, by decide⟩

theorem reads_null (depth : Nat) : Reads (readValue depth) .null "null".toList :=
  reads_scalar depth (fun rest _ => rfl) ⟨'n', _, rfl, by decide⟩

/-- **What a text stands for is what is read**, whatever stands behind it. -/
theorem readValue_of_denotes (depth : Nat) : ∀ (v : Value) (t : List Char), Denotes depth v t →
    Reads (readValue depth) v t := by
  induction depth with
  | zero =>
      intro v t h
      cases v with
      | null => exact (show t = _ from h) ▸ reads_null 0
      | bool b => exact (show t = _ from h) ▸ reads_bool 0 b
      | number n => exact h.2.2 ▸ reads_number 0 n
      | string s => exact reads_string 0 h
      | array vs => cases h
      | object ms => cases h
  | succ depth ih =>
      intro v t h
      cases v with
      | null => exact (show t = _ from h) ▸ reads_null _
      | bool b => exact (show t = _ from h) ▸ reads_bool _ b
      | number n => exact h.2.2 ▸ reads_number _ n
      | string s => exact reads_string _ h
      | array vs =>
          obtain ⟨ts, hts, rfl⟩ := h
          have hitems : List.Forall₂ (Reads (readValue depth)) vs ts := hts.imp fun v t => ih v t
          refine ⟨fun rest _ => ?_, '[', _, rfl, by decide, by decide⟩
          rw [List.cons_append, List.append_assoc, List.singleton_append, readValue, List.head?_cons,
            if_pos rfl, List.tail_cons, readList_of_reads (.inl rfl) hitems]
          rfl
      | object ms =>
          obtain ⟨ts, hts, rfl⟩ := h
          have hitems : List.Forall₂ (Reads (readMember (readValue depth))) ms ts :=
            hts.imp fun m t => readMember_of_text ih
          have hbracket : ∀ rest, (openBrace :: rest).head? ≠ some '[' := fun rest h =>
            absurd (Option.some.inj h) (by decide)
          refine ⟨fun rest _ => ?_, openBrace, _, rfl, by decide, by decide⟩
          rw [List.cons_append, List.append_assoc, List.singleton_append, readValue,
            if_neg (hbracket _), List.head?_cons, if_pos rfl, List.tail_cons,
            readList_of_reads (.inr rfl) hitems]
          rfl

/-- The whole text. -/
theorem read_of_denotes {depth : Nat} {v : Value} {t : List Char} (h : Denotes depth v t) :
    read depth t = some v := by
  have hread := (readValue_of_denotes depth v t h).reads [] (fun c hc => by cases hc)
  rw [List.append_nil] at hread
  rw [read, hread, Option.bind_some, if_pos rfl]

/-! ## Members -/

/-- The value under a name, or that there is none; two members of one name are refused. -/
def member (ms : List (List Char × Value)) (name : List Char) : Option (Option Value) :=
  match ms.filter fun m => m.1 = name with
  | [] => some none
  | [m] => some (some m.2)
  | _ => none

theorem member_of_notMem {ms : List (List Char × Value)} {name : List Char}
    (h : name ∉ ms.map Prod.fst) : member ms name = some none := by
  have hnone : ms.filter (fun m => m.1 = name) = [] := by
    rw [List.filter_eq_nil_iff]
    intro m hm heq
    exact h (List.mem_map.2 ⟨m, hm, of_decide_eq_true heq⟩)
  rw [member, hnone]

theorem member_of_mem {ms : List (List Char × Value)} (hnodup : (ms.map Prod.fst).Nodup)
    {name : List Char} {v : Value} (h : (name, v) ∈ ms) : member ms name = some (some v) := by
  obtain ⟨l, r, rfl⟩ := List.append_of_mem h
  rw [List.map_append, List.map_cons, List.nodup_append] at hnodup
  obtain ⟨_, hright, hdisjoint⟩ := hnodup
  have hbefore : l.filter (fun m => m.1 = name) = [] := by
    rw [List.filter_eq_nil_iff]
    intro m hm heq
    exact hdisjoint _ (List.mem_map_of_mem hm) name List.mem_cons_self (of_decide_eq_true heq)
  have hbehind : r.filter (fun m => m.1 = name) = [] := by
    rw [List.filter_eq_nil_iff]
    intro m hm heq
    exact (List.nodup_cons.1 hright).1 (List.mem_map.2 ⟨m, hm, of_decide_eq_true heq⟩)
  rw [member, List.filter_append, hbefore, List.filter_cons_of_pos (by simp), hbehind]
  rfl

end Fsmon.JsonText
