/-
# `Fsmon.Jsonl.Document` — what can be read as one JSON document

A reader of JSON keeps count of the open brackets and knows whether it stands in
a string.  `scan` does this much and no more: every document with a bracket at
its outside passes it, and it refuses

    a document that ends before its first bracket is closed
    anything but blanks after that bracket
    anything but punctuation after a string

Every record the daemon writes passes (`FileEvent.jsonl_string_record`).  A part
of a record does not, nor does a part with another record behind it
(`Record.torn_not_document`, `Record.glued_not_document`).
-/
import Fsmon.Jsonl
import Fsmon.Lib.JsonText

namespace Fsmon

namespace Json

def openBrace : Char := Char.ofNat 0x7B

def closeBrace : Char := Char.ofNat 0x7D

def isOpening (c : Char) : Bool := c = openBrace || c = '['

def isClosing (c : Char) : Bool := c = closeBrace || c = ']'

/-- JSON whitespace. -/
def isBlank (c : Char) : Bool := c = ' ' || c = '\t' || c = '\n' || c = '\r'

/-- Where a reader stands; `depth` is the number of open brackets but one. -/
inductive At where
  | start
  | value (depth : Nat)
  | string (depth : Nat)
  | escape (depth : Nat)
  /-- Right behind a string. -/
  | closed (depth : Nat)
  | done
  deriving DecidableEq, Repr

/-- A bracket is closed. -/
def At.leave : Nat → At
  | 0 => .done
  | depth + 1 => .value depth

/-- One character; `none` where no document can go on. -/
def At.next : At → Char → Option At
  | .start, c => if isOpening c then some (.value 0) else if isBlank c then some .start else none
  | .value depth, c =>
      if c = quotationMark then some (.string depth)
      else if isOpening c then some (.value (depth + 1))
      else if isClosing c then some (.leave depth)
      else some (.value depth)
  | .string depth, c =>
      if c = quotationMark then some (.closed depth)
      else if c = backslash then some (.escape depth)
      else some (.string depth)
  | .escape depth, _ => some (.string depth)
  | .closed depth, c =>
      if isClosing c then some (.leave depth)
      else if isBlank c || c = ',' || c = ':' then some (.value depth)
      else none
  | .done, c => if isBlank c then some .done else none

def scan (s : At) (text : Str) : Option At := text.foldlM At.next s

/-- The text can be one document: its first bracket is closed at its end. -/
def Document (text : Str) : Prop := scan .start text = some .done

instance (text : Str) : Decidable (Document text) := by
  rw [Document]
  infer_instance

@[simp] theorem scan_nil (s : At) : scan s [] = some s := rfl

@[simp] theorem scan_cons (s : At) (c : Char) (text : Str) :
    scan s (c :: text) = (s.next c).bind (scan · text) := List.foldlM_cons ..

theorem scan_append (s : At) (text rest : Str) :
    scan s (text ++ rest) = (scan s text).bind (scan · rest) := List.foldlM_append ..

/-! ## Values -/

/-- Inside a bracket, the text leads back to the same depth, and it is on one line. -/
structure Value (text : Str) : Prop where
  scans : ∀ depth, scan (.value depth) text = some (.value depth) ∨
    scan (.value depth) text = some (.closed depth)
  one_line : '\n' ∉ text

/-- A character that means nothing outside strings. -/
def IsPlain (c : Char) : Prop :=
  c ≠ quotationMark ∧ isOpening c = false ∧ isClosing c = false ∧ c ≠ '\n'

instance (c : Char) : Decidable (IsPlain c) := by
  rw [IsPlain]
  infer_instance

theorem scan_plain {text : Str} (h : ∀ c ∈ text, IsPlain c) (depth : Nat) :
    scan (.value depth) text = some (.value depth) := by
  induction text with
  | nil => rfl
  | cons c text ih =>
      obtain ⟨hq, ho, hc, _⟩ := h c List.mem_cons_self
      simp [At.next, hq, ho, hc, ih fun d hd => h d (List.mem_cons_of_mem _ hd)]

theorem Value.of_plain {text : Str} (h : ∀ c ∈ text, IsPlain c) : Value text where
  scans depth := .inl (scan_plain h depth)
  one_line hm := (h _ hm).2.2.2 rfl

theorem isPlain_digit {c : Char} (h : c.isDigit = true) : IsPlain c := by
  have hrange : 48 ≤ c.toNat ∧ c.toNat ≤ 57 := by
    simpa [Char.isDigit, UInt32.le_iff_toNat_le] using h
  have hall : ∀ n < 58, 48 ≤ n → IsPlain (Char.ofNat n) := by decide
  have hc := hall c.toNat (by omega) hrange.1
  rwa [Char.ofNat_toNat] at hc

theorem nat_plain {n : Nat} {c : Char} (hc : c ∈ nat n) : IsPlain c := by
  have hn : c ∈ Nat.toDigits 10 n := by simpa [nat] using hc
  exact isPlain_digit (Nat.isDigit_of_mem_toDigits (by decide) (by decide) hn)

theorem nat_value (n : Nat) : Value (nat n) := .of_plain fun _ => nat_plain

theorem int_value (n : Int) : Value (int n) := by
  cases n with
  | ofNat n => exact nat_value n
  | negSucc n =>
      have hint : int (.negSucc n) = '-' :: nat (n + 1) := by
        show ("-" ++ Nat.repr (n + 1)).toList = '-' :: (Nat.repr (n + 1)).toList
        simp
      rw [hint]
      refine .of_plain fun c hc => ?_
      rcases List.mem_cons.1 hc with rfl | hc
      · decide
      · exact nat_plain hc

/-! ## Strings -/

/-- What may stand in a string as it is. -/
def IsLiteral (c : Char) : Prop := c ≠ quotationMark ∧ c ≠ backslash ∧ c ≠ '\n'

instance (c : Char) : Decidable (IsLiteral c) := by
  rw [IsLiteral]
  infer_instance

theorem isLiteral_of_all {text : Str} (h : (text.all fun c => decide (IsLiteral c)) = true) :
    ∀ c ∈ text, IsLiteral c := fun c hc => of_decide_eq_true (List.all_eq_true.1 h c hc)

theorem scan_literal {text : Str} (h : ∀ c ∈ text, IsLiteral c) (depth : Nat) :
    scan (.string depth) text = some (.string depth) := by
  induction text with
  | nil => rfl
  | cons c text ih =>
      obtain ⟨hq, hb, _⟩ := h c List.mem_cons_self
      simp [At.next, hq, hb, ih fun d hd => h d (List.mem_cons_of_mem _ hd)]

theorem eq_of_toNat_eq {c : Char} {n : Nat} (h : c.toNat = n) : Char.ofNat n = c := by
  rw [← h, Char.ofNat_toNat]

/-- A character is written with a letter, or by its number, or as it is. -/
theorem escape_forms (c : Char) :
    (∃ l, JsonText.SHORT.lookup l = some c ∧ escape c = [backslash, l]) ∨
      (c.toNat < 0x20 ∧ escape c =
        [backslash, 'u', '0', '0', Nat.digitChar (c.toNat / 16), Nat.digitChar (c.toNat % 16)]) ∨
      (c ≠ quotationMark ∧ c ≠ backslash ∧ 0x20 ≤ c.toNat ∧ escape c = [c]) := by
  have hshort : ∀ {l : Char} {n : Nat}, JsonText.SHORT.lookup l = some (Char.ofNat n) → c.toNat = n →
      ∃ l', JsonText.SHORT.lookup l' = some c ∧ [backslash, l] = [backslash, l'] :=
    fun hl hn => ⟨_, hl.trans (congrArg some (eq_of_toNat_eq hn)), rfl⟩
  rw [escape]
  split
  · next hn => exact .inl (hshort rfl hn)
  · next hn => exact .inl (hshort rfl hn)
  · next hn => exact .inl (hshort rfl hn)
  · next hn => exact .inl (hshort rfl hn)
  · next hn => exact .inl (hshort rfl hn)
  · next hn => exact .inl (hshort rfl hn)
  · next hn => exact .inl (hshort rfl hn)
  · next hquote hback =>
      split
      · next hlt => exact .inr (.inl ⟨hlt, rfl⟩)
      · next hge =>
          refine .inr (.inr ⟨?_, ?_, Nat.le_of_not_lt hge, rfl⟩)
          · rintro rfl
            exact hquote rfl
          · rintro rfl
            exact hback rfl

/-- An escaped character is a literal one, or a backslash with literal ones behind it. -/
theorem escape_cases (c : Char) :
    (∃ d text, escape c = backslash :: d :: text ∧ d ≠ '\n' ∧ ∀ x ∈ text, IsLiteral x) ∨
      (IsLiteral c ∧ escape c = [c]) := by
  have hdigits : ∀ n < 32, (['0', '0', Nat.digitChar (n / 16), Nat.digitChar (n % 16)].all
      fun x => decide (IsLiteral x)) = true := by decide
  rcases escape_forms c with ⟨l, hl, he⟩ | ⟨hlt, he⟩ | ⟨hquote, hback, hge, he⟩
  · refine .inl ⟨l, [], he, ?_, nofun⟩
    rintro rfl
    cases hl
  · exact .inl ⟨_, _, he, by decide, isLiteral_of_all (hdigits _ hlt)⟩
  · refine .inr ⟨⟨hquote, hback, ?_⟩, he⟩
    rintro rfl
    exact absurd hge (by decide)

/-- No other character's escape holds a quotation mark. -/
theorem quotationMark_notMem_escape {c : Char} (h : c ≠ quotationMark) :
    quotationMark ∉ escape c := by
  have hcontrol : ∀ n < 32, quotationMark ∉
      [backslash, 'u', '0', '0', Nat.digitChar (n / 16), Nat.digitChar (n % 16)] := by decide
  rcases escape_forms c with ⟨l, hl, he⟩ | ⟨hlt, he⟩ | ⟨_, _, _, he⟩
  · rw [he]
    intro hmem
    rcases List.mem_cons.1 hmem with hback | hmem
    · exact absurd hback (by decide)
    · obtain rfl := List.mem_singleton.1 hmem
      exact h (Option.some.inj hl).symm
  · rw [he]
    exact hcontrol _ hlt
  · rw [he]
    exact fun hmem => h (List.mem_singleton.1 hmem).symm

theorem scan_escaped (text : Str) (depth : Nat) :
    scan (.string depth) (text.flatMap escape) = some (.string depth) := by
  induction text with
  | nil => rfl
  | cons c text ih =>
      rw [List.flatMap_cons, scan_append]
      rcases escape_cases c with ⟨d, rest, he, _, hrest⟩ | ⟨hc, he⟩
      · have hback : At.next (.string depth) backslash = some (.escape depth) := rfl
        rw [he, scan_cons, hback, Option.bind_some, scan_cons, At.next, Option.bind_some,
          scan_literal hrest, Option.bind_some, ih]
      · rw [he, scan_literal fun d hd => List.mem_singleton.1 hd ▸ hc, Option.bind_some, ih]

theorem newline_notMem_escaped (text : Str) : '\n' ∉ text.flatMap escape := by
  intro hm
  obtain ⟨c, _, hc⟩ := List.mem_flatMap.1 hm
  rcases escape_cases c with ⟨d, rest, he, hd, hrest⟩ | ⟨hlit, he⟩
  · rw [he] at hc
    rcases List.mem_cons.1 hc with hc | hc
    · exact absurd hc (by decide)
    · rcases List.mem_cons.1 hc with hc | hc
      · exact hd hc.symm
      · exact (hrest _ hc).2.2 rfl
  · rw [he] at hc
    exact hlit.2.2 (List.mem_singleton.1 hc).symm

/-- Between quotation marks, what leads from the string back to the string is a value. -/
theorem Value.quoted {text : Str}
    (hscan : ∀ depth, scan (.string depth) text = some (.string depth)) (hline : '\n' ∉ text) :
    Value (quotationMark :: text ++ [quotationMark]) where
  scans depth := by
    refine .inr ?_
    have hopen : At.next (.value depth) quotationMark = some (.string depth) := rfl
    have hclose : scan (.string depth) [quotationMark] = some (.closed depth) := rfl
    rw [List.cons_append, scan_cons, hopen, Option.bind_some, scan_append, hscan, Option.bind_some,
      hclose]
  one_line hm := by
    rcases List.mem_append.1 hm with hm | hm
    · rcases List.mem_cons.1 hm with hm | hm
      · exact absurd hm (by decide)
      · exact hline hm
    · exact absurd hm (by decide)

theorem string_value (text : Str) : Value (string text) :=
  .quoted (scan_escaped text) (newline_notMem_escaped text)

/-! ## Arrays and objects -/

/-- A value, and after it whatever leads back from outside strings. -/
theorem Value.append {a b : Str} (ha : Value a) (hline : '\n' ∉ b)
    (hb : ∀ depth, (scan (.value depth) b = some (.value depth) ∨
        scan (.value depth) b = some (.closed depth)) ∧
      scan (.closed depth) b = scan (.value depth) b) : Value (a ++ b) where
  scans depth := by
    rw [scan_append]
    rcases ha.scans depth with h | h
    · rw [h, Option.bind_some]
      exact (hb depth).1
    · rw [h, Option.bind_some, (hb depth).2]
      exact (hb depth).1
  one_line hm := (List.mem_append.1 hm).elim ha.one_line hline

/-- Two values with a comma or a colon between them. -/
theorem Value.separated {a b : Str} {c : Char} (hc : c = ',' ∨ c = ':') (ha : Value a)
    (hb : Value b) : Value (a ++ c :: b) := by
  have hvalue : ∀ depth, At.next (.value depth) c = some (.value depth) := by
    rcases hc with rfl | rfl <;> exact fun _ => rfl
  have hclosed : ∀ depth, At.next (.closed depth) c = some (.value depth) := by
    rcases hc with rfl | rfl <;> exact fun _ => rfl
  refine ha.append (fun hm => ?_) fun depth => ⟨?_, ?_⟩
  · rcases List.mem_cons.1 hm with hm | hm
    · rcases hc with rfl | rfl <;> exact absurd hm (by decide)
    · exact hb.one_line hm
  · rw [scan_cons, hvalue, Option.bind_some]
    exact hb.scans depth
  · rw [scan_cons, scan_cons, hvalue, hclosed]

theorem intercalate_value : ∀ {values : List Str}, (∀ v ∈ values, Value v) →
    Value (List.intercalate [','] values)
  | [], _ => .of_plain nofun
  | [v], h => by simpa [List.intercalate] using h v List.mem_cons_self
  | v :: w :: values, h => by
      have ih := intercalate_value fun u hu => h u (List.mem_cons_of_mem _ hu)
      have hcons : List.intercalate [','] (v :: w :: values)
          = v ++ ',' :: List.intercalate [','] (w :: values) := by
        simp [List.intercalate]
      rw [hcons]
      exact (h v List.mem_cons_self).separated (.inl rfl) ih

theorem next_opening {o : Char} (ho : isOpening o = true) (depth : Nat) :
    At.next (.value depth) o = some (.value (depth + 1)) := by
  have hq : o ≠ quotationMark := by
    rintro rfl
    cases ho
  rw [At.next, if_neg hq, if_pos ho]

theorem next_closing {c : Char} (hc : isClosing c = true) (depth : Nat) :
    At.next (.value depth) c = some (.leave depth) ∧
      At.next (.closed depth) c = some (.leave depth) := by
  have hq : c ≠ quotationMark := by
    rintro rfl
    cases hc
  have ho : ¬ isOpening c = true := by
    intro ho
    simp only [isOpening, isClosing, Bool.or_eq_true, decide_eq_true_eq] at ho hc
    rcases ho with rfl | rfl
    · exact absurd hc (by decide)
    · exact absurd hc (by decide)
  exact ⟨by rw [At.next, if_neg hq, if_neg ho, if_pos hc], by rw [At.next, if_pos hc]⟩

/-- The closing bracket behind a value. -/
theorem Value.scan_close {c : Char} {body : Str} (h : Value body) (hc : isClosing c = true)
    (depth : Nat) : scan (.value depth) (body ++ [c]) = some (.leave depth) := by
  obtain ⟨hv, hs⟩ := next_closing hc depth
  rw [scan_append]
  rcases h.scans depth with hb | hb
  · simp [hb, hv]
  · simp [hb, hs]

theorem newline_not_bracket {c : Char} (h : isOpening c = true ∨ isClosing c = true) :
    c ≠ '\n' := by
  rintro rfl
  rcases h with h | h <;> cases h

/-- A value in brackets is a value, and a document. -/
theorem Value.bracketed {o c : Char} {body : Str} (h : Value body) (ho : isOpening o = true)
    (hc : isClosing c = true) : Value (o :: (body ++ [c])) ∧ Document (o :: (body ++ [c])) := by
  refine ⟨⟨fun depth => .inl ?_, fun hm => ?_⟩, ?_⟩
  · rw [scan_cons, next_opening ho, Option.bind_some, h.scan_close hc]
    rfl
  · rcases List.mem_cons.1 hm with hm | hm
    · exact newline_not_bracket (.inl ho) hm.symm
    · rcases List.mem_append.1 hm with hm | hm
      · exact h.one_line hm
      · exact newline_not_bracket (.inr hc) (List.mem_singleton.1 hm).symm
  · rw [Document, scan_cons, At.next, if_pos ho, Option.bind_some, h.scan_close hc]
    rfl

theorem array_value {values : List Str} (h : ∀ v ∈ values, Value v) : Value (array values) :=
  ((intercalate_value h).bracketed (by decide) (by decide)).1

/-- What stands between the braces of an object. -/
def members (fields : List (String × Str)) : Str :=
  List.intercalate [','] (fields.map fun f => string f.1.toList ++ ':' :: f.2)

theorem object_eq (fields : List (String × Str)) :
    object fields = openBrace :: (members fields ++ [closeBrace]) := rfl

theorem members_value {fields : List (String × Str)} (h : ∀ f ∈ fields, Value f.2) :
    Value (members fields) := by
  refine intercalate_value fun v hv => ?_
  obtain ⟨f, hf, rfl⟩ := List.mem_map.1 hv
  exact (string_value _).separated (.inr rfl) (h f hf)

theorem object_value {fields : List (String × Str)} (h : ∀ f ∈ fields, Value f.2) :
    Value (object fields) := ((members_value h).bracketed (by decide) (by decide)).1

theorem object_document {fields : List (String × Str)} (h : ∀ f ∈ fields, Value f.2) :
    Document (object fields) := ((members_value h).bracketed (by decide) (by decide)).2

/-! ## Records, whole and torn -/

/-- A document in braces that begins with a key. -/
structure Record (text : Str) : Prop where
  document : Document text
  value : Value text
  begins : ∃ c rest, IsLiteral c ∧ isBlank c = false ∧ isClosing c = false ∧ c ≠ ',' ∧ c ≠ ':' ∧
    text = openBrace :: quotationMark :: c :: rest
  ends : ∃ body, text = body ++ [closeBrace]

/-- Some bracket is open. -/
def At.isInside : At → Bool
  | .start => false
  | .done => false
  | _ => true

theorem scan_done {text : Str} (h : scan .done text = some .done) : ∀ c ∈ text, isBlank c = true := by
  induction text with
  | nil => exact nofun
  | cons c text ih =>
      rw [scan_cons, At.next] at h
      split at h
      · next hc =>
          intro d hd
          rcases List.mem_cons.1 hd with rfl | hd
          · exact hc
          · exact ih h d hd
      · cases h

/-- Inside a bracket, one character leads inside or to the end. -/
theorem next_of_inside {s s' : At} {c : Char} (hs : s.isInside = true) (h : s.next c = some s') :
    s'.isInside = true ∨ s' = .done := by
  have hleave : ∀ depth, (At.leave depth).isInside = true ∨ At.leave depth = .done := by
    intro depth
    cases depth with
    | zero => exact .inr rfl
    | succ depth => exact .inl rfl
  cases s with
  | start => cases hs
  | done => cases hs
  | value depth =>
      simp only [At.next] at h
      repeat' split at h
      all_goals cases h
      · exact .inl rfl
      · exact .inl rfl
      · exact hleave depth
      · exact .inl rfl
  | string depth =>
      simp only [At.next] at h
      repeat' split at h
      all_goals cases h; exact .inl rfl
  | escape depth => cases h; exact .inl rfl
  | closed depth =>
      simp only [At.next] at h
      repeat' split at h
      all_goals cases h
      · exact hleave depth
      · exact .inl rfl

/-- Before the last bracket of a document, some bracket is open. -/
theorem inside_of_prefix {rest : Str} {c : Char} (hc : isBlank c = false) (hrest : c ∈ rest) :
    ∀ {t : Str} {s : At}, s.isInside = true → scan s (t ++ rest) = some .done →
      ∃ s', scan s t = some s' ∧ s'.isInside = true
  | [], s, hs, _ => ⟨s, rfl, hs⟩
  | d :: t, s, hs, h => by
      rw [List.cons_append, scan_cons] at h
      obtain ⟨s₁, hnext, hscan⟩ := Option.bind_eq_some_iff.1 h
      rw [scan_cons, hnext, Option.bind_some]
      rcases next_of_inside hs hnext with hin | rfl
      · exact inside_of_prefix hc hrest hin hscan
      · have hblank := scan_done hscan c (List.mem_append_right _ hrest)
        rw [hc] at hblank
        cases hblank

/-- Of a torn record some bracket is still open. -/
theorem Record.inside_of_torn {text t : Str} (h : Record text) (ht : t <+: text) (hne : t ≠ [])
    (hcut : t ≠ text) : ∃ s, scan .start t = some s ∧ s.isInside = true := by
  obtain ⟨rest, rfl⟩ := ht
  obtain ⟨c, tail, _, _, _, _, _, hbegins⟩ := h.begins
  obtain ⟨body, hends⟩ := h.ends
  have hlast : closeBrace ∈ rest := by
    have hrest : rest ≠ [] := fun he => hcut (by rw [he, List.append_nil])
    obtain ⟨r, d, rfl⟩ := List.eq_nil_or_concat rest |>.resolve_left hrest
    rw [List.concat_eq_append, ← List.append_assoc] at hends
    rw [List.concat_eq_append, (List.append_inj_right' hends rfl : [d] = [closeBrace])]
    simp
  cases t with
  | nil => exact absurd rfl hne
  | cons d t =>
      have hd : d = openBrace := (List.cons.inj hbegins).1
      have hopen : At.next .start d = some (.value 0) := by
        rw [hd]
        rfl
      have hdoc := h.document
      rw [Document, List.cons_append, scan_cons, hopen, Option.bind_some] at hdoc
      rw [scan_cons, hopen, Option.bind_some]
      exact inside_of_prefix (by decide) hlast rfl hdoc

/-- **A torn record is no document.** -/
theorem Record.torn_not_document {text t : Str} (h : Record text) (ht : t <+: text) (hne : t ≠ [])
    (hcut : t ≠ text) : ¬ Document t := by
  intro hdoc
  obtain ⟨s, hs, hin⟩ := h.inside_of_torn ht hne hcut
  rw [Document, hs] at hdoc
  cases hdoc
  cases hin

/-- Where a string ends at a key, no document goes on. -/
theorem Record.scan_in_string {text : Str} (h : Record text) {s : At} {depth : Nat}
    (hs : s = .string depth ∨ s = .escape depth) : scan s text = none := by
  obtain ⟨c, rest, _, hblank, hclosing, hcomma, hcolon, rfl⟩ := h.begins
  have hopen : s.next openBrace = some (.string depth) := by
    rcases hs with rfl | rfl <;> rfl
  have hquote : At.next (.string depth) quotationMark = some (.closed depth) := rfl
  have hkey : At.next (.closed depth) c = none := by
    simp [At.next, hclosing, hblank, hcomma, hcolon]
  rw [scan_cons, hopen, Option.bind_some, scan_cons, hquote, Option.bind_some, scan_cons, hkey]
  rfl

/-- **A record with something of a record before it is no document.** -/
theorem Record.glued_not_document {text text' t : Str} (h : Record text) (h' : Record text')
    (ht : t <+: text) (hne : t ≠ []) : ¬ Document (t ++ text') := by
  have hnext : ∀ s : At, s.next openBrace = none → scan s text' = none := by
    intro s hs
    obtain ⟨c, rest, _, _, _, _, _, rfl⟩ := h'.begins
    rw [scan_cons, hs]
    rfl
  intro hdoc
  rw [Document, scan_append] at hdoc
  by_cases hwhole : t = text
  · rw [hwhole, show scan .start text = some .done from h.document, Option.bind_some,
      hnext .done rfl] at hdoc
    cases hdoc
  · obtain ⟨s, hs, hin⟩ := h.inside_of_torn ht hne hwhole
    rw [hs, Option.bind_some] at hdoc
    cases s with
    | start => cases hin
    | done => cases hin
    | value depth =>
        -- the glued record opens and closes its own brackets only
        rcases h'.value.scans depth with hv | hv
        · rw [hv] at hdoc
          cases hdoc
        · rw [hv] at hdoc
          cases hdoc
    | string depth =>
        rw [h'.scan_in_string (.inl rfl)] at hdoc
        cases hdoc
    | escape depth =>
        rw [h'.scan_in_string (.inr rfl)] at hdoc
        cases hdoc
    | closed depth =>
        rw [hnext (.closed depth) rfl] at hdoc
        cases hdoc

/-- The fields of an object behind the first. -/
def further (fields : List (String × Str)) : Str :=
  fields.flatMap fun f => ',' :: (string f.1.toList ++ ':' :: f.2)

theorem intercalate_cons (v : Str) : ∀ values : List Str,
    List.intercalate [','] (v :: values) = v ++ values.flatMap (',' :: ·)
  | [] => by simp [List.intercalate]
  | w :: values => by
      have ih := intercalate_cons w values
      simp only [List.intercalate, List.intersperse, List.flatten_cons, List.flatMap_cons] at ih ⊢
      rw [ih]
      simp

theorem object_cons (name : String) (v : Str) (fields : List (String × Str)) :
    object ((name, v) :: fields)
      = openBrace :: (string name.toList ++ ':' :: (v ++ (further fields ++ [closeBrace]))) := by
  rw [object_eq, members, List.map_cons, intercalate_cons, List.flatMap_map, further]
  simp

/-- Every object whose first field is the time is a record, if its values are values. -/
theorem object_record {v : Str} {fields : List (String × Str)} (hv : Value v)
    (h : ∀ f ∈ fields, Value f.2) : Record (object (("time", v) :: fields)) := by
  have hall : ∀ f ∈ ("time", v) :: fields, Value f.2 := fun f hf => by
    rcases List.mem_cons.1 hf with rfl | hf
    · exact hv
    · exact h f hf
  refine ⟨object_document hall, object_value hall, ?_, openBrace :: members _, object_eq _⟩
  rw [object_cons]
  exact ⟨'t', _, by decide, by decide, by decide, by decide, by decide, rfl⟩

end Json

/-! ## The daemon's records -/

open Json

/-- `chrono` prints instants with nothing that JSON would have to escape. -/
def Chrono.Literal [Chrono] : Prop :=
  ∀ t, (∀ c ∈ Chrono.utc t, IsLiteral c) ∧ ∀ c ∈ Chrono.local_rfc3339 t, IsLiteral c

theorem ChainLink.toJson_value (l : ChainLink) : Value l.toJson := by
  refine object_value fun f hf => ?_
  simp only [List.mem_cons, List.not_mem_nil, or_false] at hf
  rcases hf with rfl | rfl | rfl | rfl
  · exact nat_value _
  · exact string_value _
  · exact string_value _
  · exact string_value _

theorem splitAtFirst_append : ∀ {pre : Str} {c : Char} (rest : Str), c ∉ pre →
    splitAtFirst [c] (pre ++ c :: rest) = some (pre, rest)
  | [], c, rest, _ => by simp [splitAtFirst]
  | d :: pre, c, rest, h => by
      rw [List.mem_cons, not_or] at h
      simp [splitAtFirst, h.1, splitAtFirst_append rest h.2]

namespace FileEvent

section
variable [Chrono]

/-- The fields behind the time. -/
theorem fields_values (e : FileEvent) (path : Str) :
    ∀ f ∈ (e.fields (Json.string path)).tail, Value f.2 := by
  intro f hf
  simp only [fields, List.cons_append, List.tail_cons, List.nil_append, List.mem_cons] at hf
  rcases hf with rfl | rfl | rfl | rfl | rfl | rfl | rfl | rfl | rfl | rfl | hf
  · exact string_value _
  · exact string_value _
  · exact nat_value _
  · exact string_value _
  · exact string_value _
  · exact string_value _
  · exact nat_value _
  · exact nat_value _
  · exact nat_value _
  · refine array_value fun v hv => ?_
    obtain ⟨l, _, rfl⟩ := List.mem_map.1 hv
    exact l.toJson_value
  · rw [Option.mem_toList, Option.map_eq_some_iff] at hf
    obtain ⟨r, _, rfl⟩ := hf
    refine array_value fun v hv => ?_
    simp only [List.mem_cons, List.not_mem_nil, or_false] at hv
    rcases hv with rfl | rfl
    · exact int_value _
    · exact nat_value _

omit [Chrono] in
/-- Patching the time of an object replaces the value of its first field. -/
theorem patch_time_object {utc local_time : Str} (hutc : quotationMark ∉ utc)
    (fields : List (String × Str)) :
    patch_time (object (("time", quotationMark :: utc ++ [quotationMark]) :: fields)) local_time
      = object (("time", quotationMark :: local_time ++ [quotationMark]) :: fields) := by
  have hobject : ∀ v, object (("time", quotationMark :: v ++ [quotationMark]) :: fields)
      = openBrace :: (TIME_KEY ++ (v ++ quotationMark :: (further fields ++ [closeBrace]))) := by
    intro v
    rw [object_cons, show TIME_KEY = string "time".toList ++ [':', quotationMark] by decide]
    simp
  have hkey : ∀ text, splitAtFirst TIME_KEY (openBrace :: (TIME_KEY ++ text))
      = some ([openBrace], text) := by
    intro text
    have hself : splitAtFirst TIME_KEY (TIME_KEY ++ text) = some ([], text) := rfl
    rw [splitAtFirst, if_neg (by exact Bool.false_ne_true), hself]
    rfl
  rw [hobject, hobject, patch_time, hkey]
  simp only [splitAtFirst_append _ hutc]
  simp

/-- **Every line the daemon writes is a record.** -/
theorem jsonl_string_record (hchrono : Chrono.Literal) {local_time : Bool} {e : FileEvent} {s : Str}
    (h : e.jsonl_string local_time = some s) : Record s := by
  have hutc : ∀ {s}, e.to_jsonl_string = some s → ∃ path,
      s = object (("time", string (Chrono.utc e.time)) :: (e.fields (string path)).tail) := by
    intro s hs
    rw [to_jsonl_string, to_string, serialize_path] at hs
    cases hp : Text.fromUtf8 e.path.toBytes with
    | none =>
        rw [hp] at hs
        cases hs
    | some path =>
        rw [hp] at hs
        cases hs
        exact ⟨path, rfl⟩
  cases local_time with
  | false =>
      obtain ⟨path, rfl⟩ := hutc h
      exact object_record (string_value _) (e.fields_values path)
  | true =>
      obtain ⟨json, hjson, rfl⟩ := Option.map_eq_some_iff.1 h
      obtain ⟨path, rfl⟩ := hutc hjson
      obtain ⟨hu, hl⟩ := hchrono e.time
      have hescaped : quotationMark ∉ (Chrono.utc e.time).flatMap escape := by
        intro hm
        obtain ⟨c, hc, hq⟩ := List.mem_flatMap.1 hm
        exact quotationMark_notMem_escape (hu c hc).1 hq
      rw [string, patch_time_object hescaped]
      exact object_record (.quoted (scan_literal hl) fun hm => (hl _ hm).2.2 rfl)
        (e.fields_values path)

end

end FileEvent

end Fsmon
