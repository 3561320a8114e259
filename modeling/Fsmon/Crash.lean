/-
# `Fsmon.Crash` — a log cut off by a crash

A crash leaves some first bytes of a log.  The new writer opens it for appending
and never looks at its end; `Query::read_events_from` and `clean_single_log`
read it line by line.  This module works on bytes: the surviving bytes, then the
lines the writer put behind them.

    `clean_single_log`        a whole clean of one file (dry runs and trims too)
    `complete_before`         the events whose line is whole before the cut
    `DamagesOnlyTorn`         what both readers owe

The events survive exactly when the cut falls at the end of a line, or nothing
is written behind it and it splits no character (`damages_only_torn_iff`): the
first line written behind a torn one becomes part of it.

`chrono` and `serde_json` are parameters.  Of the parser it is used that it
reads back the records of the log, and that a text it reads is one JSON document.
-/
import Fsmon.LogWriter.Untroubled
import Fsmon.Jsonl.Document
import Fsmon.Text.Encode
import Mathlib.Data.List.TakeWhile

namespace Fsmon

open Text Query

/-! ## Lines of a file -/

/-- The bytes `writeln!` adds for a line. -/
def lineBytes (line : Str) : Bytes := encode line ++ [newline]

/-- A file of these lines. -/
def fileOf (lines : List Str) : Bytes := lines.flatMap lineBytes

/-- `BufRead::lines` drops the line ending. -/
def chomp (s : Str) : Str :=
  match s.reverse with
  | '\n' :: '\r' :: r => r.reverse
  | '\n' :: r => r.reverse
  | _ => s

/-- The lines of a file, as `BufRead::lines` yields them. -/
def linesOf (file : Bytes) : List Str :=
  (splitLines file).filterMap fun l => (fromUtf8 l).map chomp

/-! ## `clean_single_log` -/

/-- Check if `kept_bytes` exceeds the limit per the filter's operator. -/
def should_trim (kept_bytes : Nat) (filter : SizeFilter) : Bool :=
  let max := (BitVec.ofInt 64 filter.bytes).toNat
  match filter.op with
  | .gt => max < kept_bytes
  | .ge => max ≤ kept_bytes
  | .lt => kept_bytes < max
  | .le => kept_bytes ≤ max
  | .eq => kept_bytes = max

/-- Find the byte offset to keep approximately `max_bytes` from the tail. -/
def find_tail_offset (file : Bytes) (max_bytes : Nat) : Nat :=
  if file.length ≤ max_bytes then 0
  else
    let target := file.length - max_bytes
    let scan_start := target - 4096
    let before := (file.drop scan_start).take (target - scan_start)
    if newline ∈ before then
      -- behind the last newline before `target`
      scan_start + (before.length - before.reverse.idxOf newline)
    else if newline ∈ file.drop target then target + (file.drop target).idxOf newline + 1
    else file.length

/-- Where the size trim of the temporary file starts. -/
def trim_start (temp : Bytes) (max_size : Option SizeFilter) : Nat :=
  match max_size with
  | some filter =>
      if should_trim temp.length filter then
        find_tail_offset temp (BitVec.ofInt 64 filter.bytes).toNat
      else 0
  | none => 0

section
variable (from_jsonl_str : Str → Option FileEvent)

/-- The copy loop: the lines written to the temporary file. -/
def copy_loop (time_filter : Option TimeFilter) : List Bytes → Except ReadError (List Str)
  | [] => .ok []
  | l :: ls =>
      match fromUtf8 l with
      | none => .error .invalidData
      | some s =>
          (copy_loop time_filter ls).map
            (CleanSys.keep_line from_jsonl_str time_filter (chomp s) ++ ·)

/-- Clean a single log file by time and size, with no I/O failing: what the file holds
afterwards.  After an error it is as it was. -/
def clean_single_log (file : Bytes) (time_filter : Option TimeFilter)
    (max_size : Option SizeFilter) (dry_run : Bool) : Except ReadError Bytes :=
  match copy_loop from_jsonl_str time_filter (splitLines file) with
  | .error e => .error e
  | .ok kept =>
      let temp := fileOf kept
      .ok (if dry_run then file else temp.drop (trim_start temp max_size))

/-- The filters keep everything: the time filter passes every event of the file, and the size
trim cuts nothing off. -/
def KeepsAll (file : Bytes) (time_filter : Option TimeFilter) (max_size : Option SizeFilter) :
    Prop :=
  (∀ e ∈ events from_jsonl_str file, time_filter.all (·.is_match e.time) = true) ∧
    ∀ kept, copy_loop from_jsonl_str time_filter (splitLines file) = .ok kept →
      trim_start (fileOf kept) max_size = 0

/-- Both readers of `file` have the events of `expected`, whose lines are `line`: a query without
filters returns them and no others, and a clean that keeps everything keeps their lines. -/
structure DamagesOnlyTorn (line : FileEvent → Str) (file : Bytes) (expected : List FileEvent) :
    Prop where
  reads : read_events_from from_jsonl_str [] file none none = .ok expected
  keeps : ∀ time_filter max_size dry_run, KeepsAll from_jsonl_str file time_filter max_size →
    ∃ after, clean_single_log from_jsonl_str file time_filter max_size dry_run = .ok after ∧
      (expected.map line).Sublist (linesOf after)

end

/-! ## The cut -/

/-- The events whose line stands whole before the byte `cut`. -/
def complete_before (line : FileEvent → Str) : List FileEvent → Nat → List FileEvent
  | [], _ => []
  | e :: es, cut =>
      if (encode (line e)).length ≤ cut then
        e :: complete_before line es (cut - (lineBytes (line e)).length)
      else []

/-- The bytes end where a line ends. -/
def AtLineEnd (bs : Bytes) : Prop := bs = [] ∨ bs.getLast? = some newline

instance (bs : Bytes) : Decidable (AtLineEnd bs) := by
  rw [AtLineEnd]
  infer_instance

/-- The bytes a crash at the byte `cut` leaves of a log of these events. -/
def survivors (line : FileEvent → Str) (old : List FileEvent) (cut : Nat) : Bytes :=
  (fileOf (old.map line)).take cut

/-! ## Trimming -/

section Trim

theorem trim_append_blank {c : Char} (hc : isWhitespace c = true) (s : Str) :
    trim (s ++ [c]) = trim s := by
  rw [trim, trim, List.dropWhile_append]
  split
  · next hs =>
      have hnil : s.dropWhile isWhitespace = [] := List.isEmpty_iff.1 hs
      simp [hnil, hc]
  · simp [hc]

theorem chomp_eq (s : Str) : (∃ t, s = t ++ ['\r', '\n'] ∧ chomp s = t) ∨
    (∃ t, s = t ++ ['\n'] ∧ chomp s = t) ∨ chomp s = s := by
  rw [chomp]
  split
  · next r h =>
      refine .inl ⟨r.reverse, ?_, rfl⟩
      rw [← List.reverse_reverse s, h]
      simp
  · next r _ h =>
      refine .inr (.inl ⟨r.reverse, ?_, rfl⟩)
      rw [← List.reverse_reverse s, h]
      simp
  · exact .inr (.inr rfl)

/-- The line ending is blank. -/
theorem trim_chomp (s : Str) : trim (chomp s) = trim s := by
  rcases chomp_eq s with ⟨t, rfl, h⟩ | ⟨t, rfl, h⟩ | h
  · rw [h, show t ++ ['\r', '\n'] = (t ++ ['\r']) ++ ['\n'] by simp,
      trim_append_blank (by decide), trim_append_blank (by decide)]
  · rw [h, trim_append_blank (by decide)]
  · rw [h]

/-- Trimming a text that begins with no blank leaves some first characters of it. -/
theorem trim_prefix {c : Char} (hc : isWhitespace c = false) (s : Str) :
    trim (c :: s) <+: c :: s ∧ trim (c :: s) ≠ [] := by
  have htrim : trim (c :: s) = ((c :: s).reverse.dropWhile isWhitespace).reverse := by
    rw [trim, List.dropWhile_cons_of_neg (by simp [hc])]
  rw [htrim]
  refine ⟨?_, ?_⟩
  · have hsuffix := List.dropWhile_suffix isWhitespace (l := (c :: s).reverse)
    rw [← List.reverse_prefix, List.reverse_reverse] at hsuffix
    exact hsuffix
  · intro he
    rw [List.reverse_eq_nil_iff, List.dropWhile_eq_nil_iff] at he
    have hw := he c (by simp)
    rw [hc] at hw
    cases hw

theorem trim_eq_self {c d : Char} {s t : Str} (hc : isWhitespace c = false)
    (hd : isWhitespace d = false) (h : c :: s = t ++ [d]) : trim (c :: s) = c :: s := by
  rw [trim, List.dropWhile_cons_of_neg (by simp [hc]), h, List.reverse_append]
  simp [hd]

end Trim

/-! ## Lines of records -/

section Lines

variable {text : Str}

namespace Json.Record

theorem isWhitespace_openBrace : isWhitespace openBrace = false := by decide

theorem trim_self (h : Record text) : trim text = text := by
  obtain ⟨body, hends⟩ := h.ends
  obtain ⟨c, rest, _, _, _, _, _, rfl⟩ := h.begins
  exact trim_eq_self isWhitespace_openBrace (by decide) hends

theorem ne_nil (h : Record text) : text ≠ [] := by
  obtain ⟨c, rest, _, _, _, _, _, rfl⟩ := h.begins
  exact List.cons_ne_nil _ _

theorem encode_ne_nil (h : Record text) : encode text ≠ [] := by
  obtain ⟨c, rest, _, _, _, _, _, rfl⟩ := h.begins
  exact List.cons_ne_nil _ _

/-- Some first characters of a record begin with its brace. -/
theorem prefix_cons (h : Record text) {t : Str} (ht : t <+: text) (hne : t ≠ []) :
    ∃ s, t = openBrace :: s := by
  obtain ⟨c, rest, _, _, _, _, _, rfl⟩ := h.begins
  cases t with
  | nil => exact absurd rfl hne
  | cons a s => exact ⟨s, by rw [(List.cons_prefix_cons.1 ht).1]⟩

theorem chomp_line (h : Record text) : chomp (text ++ ['\n']) = text := by
  obtain ⟨body, rfl⟩ := h.ends
  simp [chomp, closeBrace]

end Json.Record

theorem lineBytes_eq (line : Str) : lineBytes line = encode (line ++ ['\n']) := by
  rw [encode_append]
  rfl

theorem fromUtf8_lineBytes (line : Str) : fromUtf8 (lineBytes line) = some (line ++ ['\n']) := by
  rw [lineBytes_eq, fromUtf8_encode]

@[simp] theorem fileOf_nil : fileOf [] = [] := rfl

@[simp] theorem fileOf_cons (l : Str) (ls : List Str) : fileOf (l :: ls) = lineBytes l ++ fileOf ls :=
  List.flatMap_cons

/-- Up to its first newline, the rest of a file is one line. -/
theorem splitLines_line {body : Bytes} (h : newline ∉ body) (rest : Bytes) :
    splitLines (body ++ newline :: rest) = (body ++ [newline]) :: splitLines rest := by
  rw [readLine_splitLines (by simp), readLine_complete rest h]

theorem splitLines_tail {body : Bytes} (h : newline ∉ body) (hne : body ≠ []) :
    splitLines body = [body] := by
  rw [readLine_splitLines hne, readLine_cut h]
  rfl

theorem splitLines_fileOf : ∀ {ls : List Str} (rest : Bytes), (∀ l ∈ ls, '\n' ∉ l) →
    splitLines (fileOf ls ++ rest) = ls.map lineBytes ++ splitLines rest
  | [], rest, _ => rfl
  | l :: ls, rest, h => by
      have ih := splitLines_fileOf rest fun k hk => h k (List.mem_cons_of_mem _ hk)
      have hl := newline_notMem_encode (h l List.mem_cons_self)
      rw [fileOf_cons, lineBytes, List.append_assoc, List.append_assoc, List.singleton_append,
        splitLines_line hl, ih]
      rfl

theorem filterMap_chomp (ls : List Str) :
    (ls.map lineBytes).filterMap (fun l => (fromUtf8 l).map chomp)
      = ls.map fun l => chomp (l ++ ['\n']) := by
  rw [List.filterMap_map]
  simp [fromUtf8_lineBytes]

/-- The lines of a file of lines; one that ended in a carriage return lost it. -/
theorem linesOf_fileOf {ls : List Str} (h : ∀ l ∈ ls, '\n' ∉ l) :
    linesOf (fileOf ls) = ls.map fun l => chomp (l ++ ['\n']) := by
  have hsplit := splitLines_fileOf [] h
  rw [List.append_nil] at hsplit
  rw [linesOf, hsplit, splitLines, List.append_nil, filterMap_chomp]

end Lines

/-! ## What the readers make of a file of UTF-8 lines -/

section Readers

variable {from_jsonl_str : Str → Option FileEvent} {line : FileEvent → Str}

theorem read_all_iff {file : Bytes} {expected : List FileEvent} :
    read_events_from from_jsonl_str [] file none none = .ok expected ↔
      (∀ l ∈ splitLines file, (fromUtf8 l).isSome) ∧ events from_jsonl_str file = expected := by
  have hscan : read_events_from from_jsonl_str [] file none none
      = readLoop from_jsonl_str [] (extract_until []) (splitLines file) := by
    rw [read_events_from]
    split
    · next h => simp [h, splitLines, readLoop]
    · rfl
  rw [hscan, readLoop_eq_ok_iff, matching]
  simp

/-- The copy loop copies every line that is not blank, if the time filter passes every event. -/
theorem copy_loop_all {time_filter : Option TimeFilter} : ∀ {ls : List Bytes},
    (∀ l ∈ ls, ∃ s, fromUtf8 l = some s ∧ trim s ≠ []) →
    (∀ e ∈ ls.filterMap (lineEvent from_jsonl_str), time_filter.all (·.is_match e.time) = true) →
    copy_loop from_jsonl_str time_filter ls = .ok (ls.filterMap fun l => (fromUtf8 l).map chomp)
  | [], _, _ => rfl
  | l :: ls, h, hpass => by
      obtain ⟨s, hs, hblank⟩ := h l List.mem_cons_self
      have hkeep : CleanSys.keep_line from_jsonl_str time_filter (chomp s) = [chomp s] := by
        rw [CleanSys.keep_line, if_neg (by rwa [trim_chomp]), trim_chomp, parse_trim]
        cases hp : parse_log_line_jsonl from_jsonl_str s with
        | none => rfl
        | some e =>
            refine if_pos (hpass e ?_)
            simp [lineEvent, hs, hp]
      have hrest : ∀ e ∈ ls.filterMap (lineEvent from_jsonl_str),
          time_filter.all (·.is_match e.time) = true := fun e he => hpass e (by
        rw [List.filterMap_cons]
        split
        · exact he
        · exact List.mem_cons_of_mem _ he)
      have ih := copy_loop_all (fun k hk => h k (List.mem_cons_of_mem _ hk)) hrest
      simp only [copy_loop, hs, ih, hkeep, List.filterMap_cons, Option.map_some]
      rfl

/-- A file of lines that are not blank, among them the lines of `expected`. -/
theorem damages_only_torn_of_lines {file : Bytes} {expected : List FileEvent} (ks : List Str)
    (hutf8 : ∀ l ∈ splitLines file, (fromUtf8 l).isSome)
    (hev : events from_jsonl_str file = expected) (hks : linesOf file = ks)
    (hline : ∀ k ∈ ks, '\n' ∉ k ∧ trim k ≠ []) (hsub : (expected.map line).Sublist ks)
    (hrec : ∀ e ∈ expected, Json.Record (line e)) :
    DamagesOnlyTorn from_jsonl_str line file expected where
  reads := read_all_iff.2 ⟨hutf8, hev⟩
  keeps time_filter max_size dry_run hkeep := by
    have hcopy : copy_loop from_jsonl_str time_filter (splitLines file) = .ok ks := by
      rw [← hks]
      refine copy_loop_all (fun l hl => ?_) hkeep.1
      obtain ⟨s, hs⟩ := Option.isSome_iff_exists.1 (hutf8 l hl)
      refine ⟨s, hs, ?_⟩
      have hmem : chomp s ∈ ks := by
        rw [← hks]
        exact List.mem_filterMap.2 ⟨l, hl, by simp [hs]⟩
      rw [← trim_chomp]
      exact (hline _ hmem).2
    have htrim := hkeep.2 ks hcopy
    refine ⟨if dry_run then file else fileOf ks, by simp [clean_single_log, hcopy, htrim], ?_⟩
    cases dry_run with
    | true =>
        simp only [if_true, hks]
        exact hsub
    | false =>
        have hsame : (expected.map line).map (fun l => chomp (l ++ ['\n'])) = expected.map line := by
          rw [List.map_map]
          exact List.map_congr_left fun e he => (hrec e he).chomp_line
        simp only [Bool.false_eq_true, if_false, linesOf_fileOf fun k hk => (hline k hk).1]
        rw [← hsame]
        exact hsub.map _

end Readers

/-! ## The cut log -/

section Cut

variable {from_jsonl_str : Str → Option FileEvent} {line : FileEvent → Str}

theorem complete_before_zero {es : List FileEvent} (hrec : ∀ e ∈ es, Json.Record (line e)) :
    complete_before line es 0 = [] := by
  cases es with
  | nil => rfl
  | cons e es =>
      have hne := (hrec e List.mem_cons_self).encode_ne_nil
      have hlen : ¬ (encode (line e)).length ≤ 0 := by
        rw [Nat.le_zero, List.length_eq_zero_iff]
        exact hne
      rw [complete_before, if_neg hlen]

/-- What a crash leaves: whole lines, and some of the next one's text. -/
theorem survivors_cases : ∀ {es : List FileEvent} (cut : Nat),
    (∀ e ∈ es, Json.Record (line e)) →
    (∃ pre, pre.Sublist es ∧ survivors line es cut = fileOf (pre.map line) ∧
      complete_before line es cut = pre) ∨
    ∃ pre e tail, (pre ++ [e]).Sublist es ∧
      survivors line es cut = fileOf (pre.map line) ++ tail ∧ tail ≠ [] ∧
      tail <+: encode (line e) ∧
      complete_before line es cut = if tail = encode (line e) then pre ++ [e] else pre
  | [], cut, _ => .inl ⟨[], List.Sublist.refl _, by simp [survivors], rfl⟩
  | e :: es, cut, hrec => by
      have hcons : survivors line (e :: es) cut
          = (lineBytes (line e)).take cut ++ survivors line es (cut - (lineBytes (line e)).length) := by
        simp [survivors, List.take_append]
      by_cases hwhole : (lineBytes (line e)).length ≤ cut
      · have htext : (encode (line e)).length ≤ cut := by
          refine Nat.le_trans ?_ hwhole
          simp [lineBytes]
        have hcb : complete_before line (e :: es) cut
            = e :: complete_before line es (cut - (lineBytes (line e)).length) := if_pos htext
        rw [List.take_of_length_le hwhole] at hcons
        rcases survivors_cases (cut - (lineBytes (line e)).length)
          fun d hd => hrec d (List.mem_cons_of_mem _ hd) with
          ⟨pre, hsub, hs, hc⟩ | ⟨pre, d, tail, hsub, hs, hne, htail, hc⟩
        · refine .inl ⟨e :: pre, hsub.cons_cons e, ?_, by rw [hcb, hc]⟩
          rw [hcons, hs, List.map_cons, fileOf_cons]
        · refine .inr ⟨e :: pre, d, tail, hsub.cons_cons e, ?_, hne, htail, ?_⟩
          · rw [hcons, hs, List.map_cons, fileOf_cons, List.append_assoc]
          · rw [hcb, hc]
            split <;> rfl
      · have hlt : cut < (encode (line e)).length + 1 := by
          simpa [lineBytes] using hwhole
        have hrest : cut - (lineBytes (line e)).length = 0 := by omega
        have hcut : survivors line (e :: es) cut = (encode (line e)).take cut := by
          rw [hcons, hrest, lineBytes, List.take_append_of_le_length (by omega)]
          simp [survivors]
        have hcb : complete_before line (e :: es) cut
            = if (encode (line e)).length ≤ cut then [e] else [] := by
          rw [complete_before, hrest,
            complete_before_zero fun d hd => hrec d (List.mem_cons_of_mem _ hd)]
        by_cases hzero : cut = 0
        · have hne := (hrec e List.mem_cons_self).encode_ne_nil
          refine .inl ⟨[], List.nil_sublist _, by rw [hcut, hzero]; rfl, ?_⟩
          rw [hcb, if_neg]
          rw [hzero, Nat.le_zero, List.length_eq_zero_iff]
          exact hne
        · refine .inr ⟨[], e, (encode (line e)).take cut,
            (List.nil_sublist es).cons_cons e, by simp [hcut], ?_, List.take_prefix _ _, ?_⟩
          · intro he
            rcases List.take_eq_nil_iff.1 he with h | h
            · exact hzero h
            · exact (hrec e List.mem_cons_self).encode_ne_nil h
          · rw [hcb, List.nil_append]
            by_cases hlen : (encode (line e)).length ≤ cut
            · rw [if_pos hlen, if_pos (List.take_of_length_le hlen)]
            · have hne : (encode (line e)).take cut ≠ encode (line e) := by
                intro he
                have := congrArg List.length he
                simp at this
                omega
              rw [if_neg hlen, if_neg hne]

theorem atLineEnd_fileOf (ls : List Str) : AtLineEnd (fileOf ls) := by
  rcases List.eq_nil_or_concat ls with rfl | ⟨init, l, rfl⟩
  · exact .inl rfl
  · refine .inr ?_
    simp [fileOf, lineBytes]

theorem not_atLineEnd_tail {bs tail : Bytes} (hne : tail ≠ []) (hline : newline ∉ tail) :
    ¬ AtLineEnd (bs ++ tail) := by
  obtain ⟨init, b, rfl⟩ := (List.eq_nil_or_concat tail).resolve_left hne
  rintro (h | h)
  · simp at h
  · refine hline ?_
    have hb : b = newline := by simpa using h
    simp [hb]

/-- The line of a record is read back. -/
theorem lineEvent_lineBytes {e : FileEvent} (hrec : Json.Record (line e))
    (hback : from_jsonl_str (line e) = some e) :
    lineEvent from_jsonl_str (lineBytes (line e)) = some e := by
  have htrim : trim (line e ++ ['\n']) = line e := by
    rw [trim_append_blank (by decide), hrec.trim_self]
  rw [lineEvent, fromUtf8_lineBytes, Option.bind_some, parse_log_line_jsonl, htrim,
    if_neg hrec.ne_nil, hback]

theorem filterMap_lineBytes : ∀ {es : List FileEvent}, (∀ e ∈ es, Json.Record (line e)) →
    (∀ e ∈ es, from_jsonl_str (line e) = some e) →
    ((es.map line).map lineBytes).filterMap (lineEvent from_jsonl_str) = es
  | [], _, _ => rfl
  | e :: es, hrec, hback => by
      have ih := filterMap_lineBytes (fun d hd => hrec d (List.mem_cons_of_mem _ hd))
        fun d hd => hback d (List.mem_cons_of_mem _ hd)
      rw [List.map_cons, List.map_cons, List.filterMap_cons,
        lineEvent_lineBytes (hrec e List.mem_cons_self) (hback e List.mem_cons_self), ih]

/-- **The torn line**, when nothing stands behind it: it is read back if it lacks only its
newline, and else holds no event. -/
theorem lineEvent_torn {e : FileEvent} {t : Str} (hrec : Json.Record (line e))
    (hback : from_jsonl_str (line e) = some e)
    (hdoc : ∀ s e, from_jsonl_str s = some e → Json.Document s) (ht : t <+: line e) (hne : t ≠ []) :
    trim t ≠ [] ∧ lineEvent from_jsonl_str (encode t) = if t = line e then some e else none := by
  obtain ⟨s, rfl⟩ := hrec.prefix_cons ht hne
  obtain ⟨htrim, hblank⟩ := trim_prefix Json.Record.isWhitespace_openBrace s
  refine ⟨hblank, ?_⟩
  rw [lineEvent, fromUtf8_encode, Option.bind_some, parse_log_line_jsonl, if_neg hblank]
  split
  · next h => rw [h, hrec.trim_self, hback]
  · next h =>
      have hcut : trim (Json.openBrace :: s) ≠ line e := by
        intro he
        have hle := htrim.length_le
        rw [he] at hle
        exact h (ht.eq_of_length_le hle)
      refine Option.eq_none_iff_forall_ne_some.2 fun d hd => ?_
      exact hrec.torn_not_document (htrim.trans ht) hblank hcut (hdoc _ d hd)

/-- **The glued line**: behind a torn line, the next one's event is lost. -/
theorem lineEvent_glued {e d : FileEvent} {tail : Bytes} (hrec : Json.Record (line e))
    (hrec' : Json.Record (line d))
    (hdoc : ∀ s e, from_jsonl_str s = some e → Json.Document s) (htail : tail <+: encode (line e))
    (hne : tail ≠ []) : lineEvent from_jsonl_str (tail ++ lineBytes (line d)) = none := by
  rcases encode_prefix_cases htail with ⟨t, ht, rfl⟩ | hbad
  · have htne : t ≠ [] := by
      rintro rfl
      exact hne rfl
    obtain ⟨s, rfl⟩ := hrec.prefix_cons ht htne
    obtain ⟨body, hends⟩ := hrec'.ends
    have htrim : trim (Json.openBrace :: s ++ line d ++ ['\n']) = Json.openBrace :: s ++ line d := by
      rw [trim_append_blank (by decide)]
      refine trim_eq_self (t := Json.openBrace :: s ++ body) (d := Json.closeBrace)
        Json.Record.isWhitespace_openBrace (by decide) ?_
      rw [hends]
      simp
    rw [lineEvent, lineBytes_eq, ← encode_append, ← List.append_assoc, fromUtf8_encode,
      Option.bind_some, parse_log_line_jsonl, htrim, if_neg (by simp)]
    refine Option.eq_none_iff_forall_ne_some.2 fun x hx => ?_
    exact hrec.glued_not_document hrec' ht htne (hdoc _ x hx)
  · -- the record's brace cannot complete the character that was cut
    obtain ⟨c, rest, _, _, _, _, _, hbegins⟩ := hrec'.begins
    obtain ⟨b, bs, hb, hbs⟩ : ∃ b bs, b < 0x80 ∧ lineBytes (line d) = b :: bs :=
      ⟨0x7B, _, by decide, by rw [hbegins]; rfl⟩
    have hnone : fromUtf8 (tail ++ lineBytes (line d)) = none := by
      rw [hbs, fromUtf8, decode_append_ascii hb, if_neg]
      intro hall
      rw [List.all_append, Bool.and_eq_true] at hall
      rw [fromUtf8, if_pos hall.1] at hbad
      cases hbad
    rw [lineEvent, hnone]
    rfl

theorem record_lines {es : List FileEvent} (hrec : ∀ e ∈ es, Json.Record (line e)) :
    ∀ k ∈ es.map line, '\n' ∉ k ∧ trim k ≠ [] := by
  intro k hk
  obtain ⟨e, he, rfl⟩ := List.mem_map.1 hk
  exact ⟨(hrec e he).value.one_line, by rw [(hrec e he).trim_self]; exact (hrec e he).ne_nil⟩

theorem chomp_records {es : List FileEvent} (hrec : ∀ e ∈ es, Json.Record (line e)) :
    (es.map line).map (fun l => chomp (l ++ ['\n'])) = es.map line := by
  rw [List.map_map]
  exact List.map_congr_left fun e he => (hrec e he).chomp_line

/-- Whole records are read back, all of them. -/
theorem damages_only_torn_whole {es : List FileEvent} (hrec : ∀ e ∈ es, Json.Record (line e))
    (hback : ∀ e ∈ es, from_jsonl_str (line e) = some e) :
    DamagesOnlyTorn from_jsonl_str line (fileOf (es.map line)) es := by
  have hsplit := splitLines_fileOf [] fun k hk => (record_lines hrec k hk).1
  rw [List.append_nil, splitLines, List.append_nil] at hsplit
  refine damages_only_torn_of_lines (es.map line) ?_ ?_ ?_ (record_lines hrec)
    (List.Sublist.refl _) hrec
  · rw [hsplit]
    intro l hl
    obtain ⟨k, _, rfl⟩ := List.mem_map.1 hl
    rw [fromUtf8_lineBytes]
    rfl
  · rw [events, hsplit, filterMap_lineBytes hrec hback]
  · rw [linesOf, hsplit, filterMap_chomp, chomp_records hrec]

/-- The lines of whole records with a torn one behind them. -/
theorem splitLines_torn {pre : List FileEvent} {e : FileEvent} {tail : Bytes}
    (hrec : ∀ d ∈ pre ++ [e], Json.Record (line d)) (htail : tail <+: encode (line e)) :
    newline ∉ tail ∧ ∀ rest, splitLines (fileOf (pre.map line) ++ rest)
      = (pre.map line).map lineBytes ++ splitLines rest := by
  have he := newline_notMem_encode (hrec e (by simp)).value.one_line
  have hpre := record_lines fun d hd => hrec d (List.mem_append_left _ hd)
  exact ⟨fun hm => he (htail.subset hm), fun rest => splitLines_fileOf rest fun k hk => (hpre k hk).1⟩

/-- Whole records, a torn one of whole characters, and nothing behind it. -/
theorem damages_only_torn_quiet {pre : List FileEvent} {e : FileEvent} {t : Str}
    (hrec : ∀ d ∈ pre ++ [e], Json.Record (line d))
    (hback : ∀ d ∈ pre ++ [e], from_jsonl_str (line d) = some d)
    (hdoc : ∀ s e, from_jsonl_str s = some e → Json.Document s) (ht : t <+: line e) (hne : t ≠ []) :
    DamagesOnlyTorn from_jsonl_str line (fileOf (pre.map line) ++ encode t)
      (if t = line e then pre ++ [e] else pre) := by
  have hpre : ∀ d ∈ pre, Json.Record (line d) := fun d hd => hrec d (List.mem_append_left _ hd)
  have hprefix : encode t <+: encode (line e) := by
    obtain ⟨rest, hrest⟩ := ht
    exact ⟨encode rest, by rw [← encode_append, hrest]⟩
  have htne : encode t ≠ [] := by
    obtain ⟨s, rfl⟩ := (hrec e (by simp)).prefix_cons ht hne
    exact List.cons_ne_nil _ _
  obtain ⟨hline, hsplit⟩ := splitLines_torn hrec hprefix
  obtain ⟨hblank, hevent⟩ := lineEvent_torn (hrec e (by simp)) (hback e (by simp)) hdoc ht hne
  have hnl : '\n' ∉ t := fun hm => (hrec e (by simp)).value.one_line (ht.subset hm)
  have hfile : splitLines (fileOf (pre.map line) ++ encode t)
      = (pre.map line).map lineBytes ++ [encode t] := by
    rw [hsplit, splitLines_tail hline htne]
  have hchomp : chomp t = t := by
    rcases chomp_eq t with ⟨u, rfl, _⟩ | ⟨u, rfl, _⟩ | h
    · exact absurd (by simp) hnl
    · exact absurd (by simp) hnl
    · exact h
  refine damages_only_torn_of_lines (pre.map line ++ [t]) ?_ ?_ ?_ ?_ ?_ ?_
  · rw [hfile]
    intro l hl
    rcases List.mem_append.1 hl with hl | hl
    · obtain ⟨k, _, rfl⟩ := List.mem_map.1 hl
      rw [fromUtf8_lineBytes]
      rfl
    · rw [List.mem_singleton.1 hl, fromUtf8_encode]
      rfl
  · rw [events, hfile, List.filterMap_append,
      filterMap_lineBytes hpre fun d hd => hback d (List.mem_append_left _ hd)]
    simp only [List.filterMap_cons, hevent, List.filterMap_nil]
    split <;> simp_all
  · rw [linesOf, hfile, List.filterMap_append, filterMap_chomp, chomp_records hpre]
    simp [fromUtf8_encode, hchomp]
  · intro k hk
    rcases List.mem_append.1 hk with hk | hk
    · exact record_lines hpre k hk
    · rw [List.mem_singleton.1 hk]
      exact ⟨hnl, hblank⟩
  · split
    · next h => simp [h]
    · exact List.sublist_append_left _ _
  · split
    · exact hrec
    · exact hpre

/-- **A cut log.**  The readers have the events whose lines are whole before the cut and all
written after it, iff the cut falls at the end of a line, or nothing is written and it splits no
character. -/
theorem damages_only_torn_at_cut {old new : List FileEvent} (cut : Nat)
    (hrec : ∀ e ∈ old ++ new, Json.Record (line e))
    (hback : ∀ e ∈ old ++ new, from_jsonl_str (line e) = some e)
    (hdoc : ∀ s e, from_jsonl_str s = some e → Json.Document s) :
    DamagesOnlyTorn from_jsonl_str line (survivors line old cut ++ fileOf (new.map line))
        (complete_before line old cut ++ new) ↔
      AtLineEnd (survivors line old cut) ∨
        new = [] ∧ (fromUtf8 (survivors line old cut)).isSome := by
  rcases survivors_cases cut fun e he => hrec e (List.mem_append_left _ he) with
    ⟨pre, hsub, hs, hc⟩ | ⟨pre, e, tail, hsub, hs, hne, htail, hc⟩
  · -- the cut is at the end of a line
    have hfile : survivors line old cut ++ fileOf (new.map line) = fileOf ((pre ++ new).map line) := by
      rw [hs, fileOf, fileOf, fileOf, List.map_append, List.flatMap_append]
    have hmem : ∀ e ∈ pre ++ new, e ∈ old ++ new := fun e he =>
      ((hsub.append (List.Sublist.refl new)).subset he)
    rw [hfile, hc, hs]
    exact ⟨fun _ => .inl (atLineEnd_fileOf _), fun _ =>
      damages_only_torn_whole (fun e he => hrec e (hmem e he)) fun e he => hback e (hmem e he)⟩
  · have hrec' : ∀ d ∈ pre ++ [e], Json.Record (line d) := fun d hd =>
      hrec d (List.mem_append_left _ (hsub.subset hd))
    have hback' : ∀ d ∈ pre ++ [e], from_jsonl_str (line d) = some d := fun d hd =>
      hback d (List.mem_append_left _ (hsub.subset hd))
    obtain ⟨hline, hsplit⟩ := splitLines_torn hrec' htail
    have hend : ¬ AtLineEnd (survivors line old cut) := by
      rw [hs]
      exact not_atLineEnd_tail hne hline
    cases new with
    | nil =>
        rw [fileOf, List.map_nil, List.flatMap_nil, List.append_nil, List.append_nil]
        refine ⟨fun h => .inr ⟨rfl, ?_⟩, fun h => ?_⟩
        · have hlines := (read_all_iff.1 h.reads).1
          have hall := (fromUtf8_lines (splitLines_isLines _)).2 hlines
          rwa [splitLines_flatten] at hall
        · obtain ⟨_, hsome⟩ := h.resolve_left hend
          rw [hs] at hsome
          have hlines := fromUtf8_splitLines hsome tail (by
            rw [hsplit, splitLines_tail hline hne]
            simp)
          rcases encode_prefix_cases htail with ⟨t, ht, rfl⟩ | hbad
          · have htne : t ≠ [] := by
              rintro rfl
              exact hne rfl
            have hiff : (encode t = encode (line e)) = (t = line e) := by
              refine propext ⟨fun he => ?_, fun he => by rw [he]⟩
              have := congrArg fromUtf8 he
              rwa [fromUtf8_encode, fromUtf8_encode, Option.some.injEq] at this
            rw [hs, hc]
            simp only [hiff]
            exact damages_only_torn_quiet hrec' hback' hdoc ht htne
          · rw [hbad] at hlines
            cases hlines
    | cons n new =>
        refine ⟨fun h => ?_, fun h => ?_⟩
        · -- the first record behind the torn one is lost
          exfalso
          have hev := (read_all_iff.1 h.reads).2
          have hn : Json.Record (line n) := hrec n (by simp)
          have hnew : ∀ d ∈ new, d ∈ old ++ n :: new := fun d hd => by simp [hd]
          have hnl := newline_notMem_encode hn.value.one_line
          have hglue : splitLines (tail ++ fileOf ((n :: new).map line))
              = (tail ++ lineBytes (line n)) :: (new.map line).map lineBytes := by
            have hbody : newline ∉ tail ++ encode (line n) := fun hm =>
              (List.mem_append.1 hm).elim hline hnl
            have hrest := splitLines_fileOf [] fun k hk =>
              (record_lines (fun d hd => hrec d (hnew d hd)) k hk).1
            rw [List.append_nil, splitLines, List.append_nil] at hrest
            have hl := splitLines_line hbody (fileOf (new.map line))
            rw [hrest] at hl
            rw [List.map_cons, fileOf_cons, lineBytes]
            simpa using hl
          rw [hs, List.append_assoc, events, hsplit, hglue, List.filterMap_append,
            filterMap_lineBytes (fun d hd => hrec' d (List.mem_append_left _ hd))
              (fun d hd => hback' d (List.mem_append_left _ hd)), List.filterMap_cons,
            lineEvent_glued (hrec' e (by simp)) hn hdoc htail hne,
            filterMap_lineBytes (fun d hd => hrec d (hnew d hd)) (fun d hd => hback d (hnew d hd)),
            hc] at hev
          have hle : pre.length ≤ (if tail = encode (line e) then pre ++ [e] else pre).length := by
            split <;> simp
          have hlen := congrArg List.length hev
          simp only [List.length_append, List.length_cons] at hlen
          omega
        · rcases h with h | ⟨h, _⟩
          · exact absurd h hend
          · cases h

end Cut

/-! ## Crash and restart -/

section Restart

open FileLogWriter

variable [Chrono] (from_jsonl_str : Str → Option FileEvent)

/-- The line of an event whose path can be printed. -/
def FileEvent.jsonl_line (local_time : Bool) (e : FileEvent) : Str :=
  (e.jsonl_string local_time).getD []

theorem jsonl_line_record (hchrono : Chrono.Literal) (local_time : Bool) {e : FileEvent}
    (h : e.has_utf8_path = true) : Json.Record (e.jsonl_line local_time) := by
  rw [← e.jsonl_string_isSome local_time] at h
  obtain ⟨s, hs⟩ := Option.isSome_iff_exists.1 h
  rw [FileEvent.jsonl_line, hs, Option.getD_some]
  exact FileEvent.jsonl_string_record hchrono hs

/-- The file of a log after a crash at the byte `cut` and the calls `ops` on a new writer; the
directory counts the lines from the restart on. -/
def restarted (local_time : Bool) (old : List FileEvent) (cut : Nat) (log_dir : LogDir) (now : Nat)
    (ops : List Op) (p : LogPath) : Bytes :=
  survivors (·.jsonl_line local_time) old cut ++
    fileOf ((ops.foldl (apply (·.jsonl_line local_time)) (new log_dir now)).finish.log_dir.lines p)

/-- **A crash damages at most the torn record** iff the cut falls at the end of a line, or nothing
is written to the log after the restart and the cut splits no character. -/
theorem damages_only_torn_iff (hchrono : Chrono.Literal)
    (hdoc : ∀ s e, from_jsonl_str s = some e → Json.Document s) (local_time : Bool)
    (old : List FileEvent) (cut : Nat) (log_dir : LogDir) (hdir : log_dir.Wf) (now : Nat)
    (ops : List Op) (hops : ∀ op ∈ ops, op.Succeeds) (p : LogPath) (hnew : log_dir.lines p = [])
    (hutf8 : ∀ e ∈ old ++ (ops.flatMap Op.handed).map (·.1), e.has_utf8_path = true)
    (hback : ∀ e ∈ old ++ handedTo p ops, from_jsonl_str (e.jsonl_line local_time) = some e) :
    DamagesOnlyTorn from_jsonl_str (·.jsonl_line local_time)
        (restarted local_time old cut log_dir now ops p)
        (complete_before (·.jsonl_line local_time) old cut ++ handedTo p ops) ↔
      AtLineEnd (survivors (·.jsonl_line local_time) old cut) ∨
        handedTo p ops = [] ∧ (fromUtf8 (survivors (·.jsonl_line local_time) old cut)).isSome := by
  rw [restarted, finish_appended _ hdir hnew now hops]
  refine damages_only_torn_at_cut cut (fun e he => jsonl_line_record hchrono local_time ?_) hback hdoc
  refine hutf8 e ?_
  rcases List.mem_append.1 he with he | he
  · exact List.mem_append_left _ he
  · obtain ⟨q, hq, rfl⟩ := List.mem_map.1 he
    exact List.mem_append_right _ (List.mem_map.2 ⟨q, (List.mem_filter.1 hq).1, rfl⟩)

end Restart

/-! ## A record written behind a torn one -/

/-- What `chrono` prints for seconds 1 and 2. -/
@[reducible] def sampleChrono : Chrono where
  utc t := if t = 1000000000 then "1970-01-01T00:00:01Z".toList else "1970-01-01T00:00:02Z".toList
  local_rfc3339 t :=
    if t = 1000000000 then "1970-01-01T00:00:01+00:00".toList
    else "1970-01-01T00:00:02+00:00".toList

theorem sampleChrono_literal : @Chrono.Literal sampleChrono := by
  intro t
  refine ⟨?_, ?_⟩
  · show ∀ c ∈ ite _ _ _, _
    split <;> exact Json.isLiteral_of_all (by decide)
  · show ∀ c ∈ ite _ _ _, _
    split <;> exact Json.isLiteral_of_all (by decide)

open FileLogWriter

theorem sampleParse_document (s : Str) (e : FileEvent) (h : sampleParse s = some e) :
    Json.Document s := by
  rw [sampleParse] at h
  split at h
  · next hs =>
      rw [hs]
      decide +kernel
  · split at h
    · next hs =>
        rw [hs]
        decide +kernel
    · cases h

/-- A crash in the second of two records, and a record written after it: the reader gets the
first record only. -/
theorem torn_line_takes_the_next :
    ¬ DamagesOnlyTorn sampleParse (@FileEvent.jsonl_line sampleChrono false)
      (@restarted sampleChrono false [sampleEvent 1, sampleEvent 2] 200 .empty 0
        [.write 0 (fun _ => .calm) .calm (sampleEvent 1) "sh"] (cmd_to_log_name "sh"))
      (complete_before (@FileEvent.jsonl_line sampleChrono false) [sampleEvent 1, sampleEvent 2] 200
        ++ [sampleEvent 1]) := by
  intro h
  exact absurd h.reads (by decide +kernel)

/-- A crash right behind the first of two records. -/
theorem damages_only_torn_line_end :
    DamagesOnlyTorn sampleParse (@FileEvent.jsonl_line sampleChrono false)
      (@restarted sampleChrono false [sampleEvent 1, sampleEvent 2] 149 .empty 0
        [.write 0 (fun _ => .calm) .calm (sampleEvent 1) "sh"] (cmd_to_log_name "sh"))
      (complete_before (@FileEvent.jsonl_line sampleChrono false) [sampleEvent 1, sampleEvent 2] 149
        ++ [sampleEvent 1]) :=
  (@damages_only_torn_iff sampleChrono sampleParse sampleChrono_literal sampleParse_document false
    [sampleEvent 1, sampleEvent 2] 149 .empty LogDir.empty_wf 0
    [.write 0 (fun _ => .calm) .calm (sampleEvent 1) "sh"]
    (fun op hop => by
      cases List.mem_singleton.1 hop
      exact ⟨rfl, ⟨0, rfl⟩, rfl⟩)
    (cmd_to_log_name "sh") rfl (by decide +kernel) (by decide +kernel)).2 (.inl (by decide +kernel))

end Fsmon
