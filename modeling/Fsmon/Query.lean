/-
# `Fsmon.Query` — the indexed log query

`Query::read_events_from` scans a log from the offset that
`find_first_event_after` bisects for.  The loop is `Bisect.bisect` with one
round of the source's loop body, `probe`, as the probe.

`serde_json::from_str::<FileEvent>` is the parameter `from_jsonl_str`; nothing
is assumed of it.

**Proved here.**

    the read loop from an offset = the passing events of the lines from there     (`readLoop_eq`)
    the query returns the passing events of the file  ⟺  `SearchSound`            (`read_events_from_iff`)
    on a plain log the bisection finds the first event at or after `since`         (`find_first_event_after_plain`)

`SearchSound` speaks of the midpoints the bisection probes: none of them reads
from inside a character, and no passing event is left behind the last one that
was judged too early.  A line past 4096 bytes, a blank or unparseable line
after a passing event, and a non-ASCII character cut by the scan-back window
all break it; on ASCII logs of short lines with every bad line before the first
event at or after `since`, it holds.
-/
import Fsmon.Event
import Fsmon.Lib.Bisect

namespace Fsmon.Query

open Text

def SCAN_BACK_BYTES : Nat := 4096

/-- `std::io::ErrorKind::InvalidData`: `read_line` met bytes that are not UTF-8. -/
inductive ReadError where
  | invalidData
  deriving DecidableEq, Repr

variable (from_jsonl_str : Str → Option FileEvent)

/-- Parse a JSONL line into a FileEvent. -/
def parse_log_line_jsonl (line : Str) : Option FileEvent :=
  if trim line = [] then none else from_jsonl_str (trim line)

/-- Extract a lower-bound (since) time from filters with > or >= operators. -/
def extract_since (time_filters : List TimeFilter) : Option Int :=
  time_filters.foldl (fun since f =>
    if f.is_lower_bound then
      match since with
      | none => some f.time
      | some s => if s < f.time then some f.time else some s
    else since) none

/-- Extract an upper-bound (until) time from filters with < or <= operators. -/
def extract_until (time_filters : List TimeFilter) : Option Int :=
  time_filters.foldl (fun until_ f =>
    if f.is_upper_bound then
      match until_ with
      | none => some f.time
      | some u => if f.time < u then some f.time else some u
    else until_) none

/-- The read loop of `read_events_from`, over the lines left to read. -/
def readLoop (time_filters : List TimeFilter) (until_ : Option Int) :
    List Bytes → Except ReadError (List FileEvent)
  | [] => .ok []
  | line :: lines =>
      match fromUtf8 line with
      | none => .error .invalidData
      | some s =>
          let trimmed := trim s
          if trimmed = [] then readLoop time_filters until_ lines
          else match parse_log_line_jsonl from_jsonl_str trimmed with
            | none => readLoop time_filters until_ lines
            | some event =>
                if time_filters.all (·.is_match event.time) then
                  if until_.any (· < event.time) then .ok []
                  else (readLoop time_filters until_ lines).map (event :: ·)
                else readLoop time_filters until_ lines

/-- One round of the bisection: is the line found for `mid` too early?  The start of the line is
computed in the lossy copy of the window, as the source does. -/
def probe (file : Bytes) (since : Int) (mid : Nat) : Except ReadError Bool :=
  let scan_start := mid - SCAN_BACK_BYTES
  let content := fromUtf8Lossy ((file.drop scan_start).take (mid - scan_start))
  let line_start := match rfindNewline content with
    | some p => p + 1
    | none => 0
  let adjusted_pos := scan_start + line_start
  let line := (readLine (file.drop adjusted_pos)).1
  if line = [] then .ok false
  else match fromUtf8 line with
    | none => .error .invalidData
    | some s =>
        match parse_log_line_jsonl from_jsonl_str (trim s) with
        | some e => .ok (e.time < since)
        | none => .ok true

/-- Binary search for the position of the first event at or after `since`. -/
def find_first_event_after (file : Bytes) (since : Int) : Except ReadError Nat :=
  Bisect.bisect (probe from_jsonl_str file since) file.length 0 file.length

/-- Read events from a single log file within the time range, with binary search. -/
def read_events_from (time_filters : List TimeFilter) (file : Bytes)
    (since until_ : Option Int) : Except ReadError (List FileEvent) :=
  if file = [] then .ok []
  else
    let start_pos := match since with
      | some since_time => find_first_event_after from_jsonl_str file since_time
      | none => .ok 0
    match start_pos with
    | .error e => .error e
    | .ok start_pos =>
        readLoop from_jsonl_str time_filters until_ (splitLines (file.drop start_pos))

/-! ## What a scan reads -/

/-- The event of one line, if it holds one. -/
def lineEvent (line : Bytes) : Option FileEvent :=
  (fromUtf8 line).bind (parse_log_line_jsonl from_jsonl_str)

/-- The parseable events of a file, in file order. -/
def events (file : Bytes) : List FileEvent :=
  (splitLines file).filterMap (lineEvent from_jsonl_str)

/-- The parseable events that satisfy every filter: the answer of a full scan. -/
def matching (time_filters : List TimeFilter) (file : Bytes) : List FileEvent :=
  (events from_jsonl_str file).filter fun e => time_filters.all (·.is_match e.time)

/-- Judged by its whole line, is the line too early? -/
def lineTooEarly (since : Int) (line : Bytes) : Bool :=
  match lineEvent from_jsonl_str line with
  | some e => e.time < since
  | none => true

/-! ## The bounds extracted from the filters -/

section Bounds

theorem foldl_until_mem (fs : List TimeFilter) : ∀ (acc : Option Int) (u : Int),
    fs.foldl (fun until_ f =>
      if f.is_upper_bound then
        match until_ with
        | none => some f.time
        | some u => if f.time < u then some f.time else some u
      else until_) acc = some u → acc = some u ∨ ∃ f ∈ fs, f.is_upper_bound = true ∧ f.time = u := by
  induction fs with
  | nil => intro acc u h; exact Or.inl h
  | cons f fs ih =>
      intro acc u h
      rw [List.foldl_cons] at h
      rcases ih _ u h with h | ⟨g, hg, hl, rfl⟩
      · by_cases hf : f.is_upper_bound = true
        · simp only [hf, if_true] at h
          cases acc with
          | none => exact Or.inr ⟨f, List.mem_cons_self, hf, by simpa using h⟩
          | some a =>
              simp only at h
              split at h
              · exact Or.inr ⟨f, List.mem_cons_self, hf, by simpa using h⟩
              · exact Or.inl h
        · simp only [hf] at h
          exact Or.inl h
      · exact Or.inr ⟨g, List.mem_cons_of_mem _ hg, hl, rfl⟩

/-- `until` is the time of one of the upper-bound filters. -/
theorem extract_until_mem {fs : List TimeFilter} {u : Int} (h : extract_until fs = some u) :
    ∃ f ∈ fs, f.is_upper_bound = true ∧ f.time = u := by
  rcases foldl_until_mem fs none u h with h | h
  · exact absurd h (by simp)
  · exact h

/-- An event that passes every filter never meets the `until` break. -/
theorem until_not_exceeded {fs : List TimeFilter} {t : Int}
    (h : fs.all (·.is_match t) = true) : (extract_until fs).any (· < t) = false := by
  cases hu : extract_until fs with
  | none => rfl
  | some u =>
      obtain ⟨f, hf, hup, rfl⟩ := extract_until_mem hu
      have hle := TimeFilter.le_of_upper hup (List.all_eq_true.1 h f hf)
      simp [hle]

end Bounds

/-! ## The read loop is a filtered scan -/

section Scan

variable {from_jsonl_str}

/-- A blank line holds no event, whatever the parser does. -/
theorem parse_blank {s : Str} (h : trim s = []) : parse_log_line_jsonl from_jsonl_str s = none := by
  simp [parse_log_line_jsonl, h]

theorem dropWhile_idem {α : Type*} (p : α → Bool) : ∀ l : List α,
    (l.dropWhile p).dropWhile p = l.dropWhile p := by
  intro l
  induction l with
  | nil =>
      exact rfl
  | cons a l ih =>
      by_cases ha : p a = true
      · simp only [List.dropWhile_cons, ha, if_true]
        exact ih
      · simp [ha]

/-- Dropping leading blanks after trailing ones finds none left. -/
theorem dropWhile_reverse_dropWhile {α : Type*} (p : α → Bool) (l : List α) :
    (((l.dropWhile p).reverse.dropWhile p).reverse).dropWhile p
      = ((l.dropWhile p).reverse.dropWhile p).reverse := by
  cases hl : l.dropWhile p with
  | nil => rfl
  | cons a m =>
      have ha : p a = false := by
        have := List.head?_dropWhile_not p l
        rw [hl] at this
        simpa using this
      rw [List.reverse_cons, List.dropWhile_append]
      split
      · simp [ha]
      · simp [ha]

theorem trim_trim (s : Str) : trim (trim s) = trim s := by
  have hlead : (trim s).dropWhile isWhitespace = trim s := dropWhile_reverse_dropWhile _ s
  have htail : (trim s).reverse.dropWhile isWhitespace = (trim s).reverse := by
    rw [trim, List.reverse_reverse, dropWhile_idem]
  rw [trim, hlead, htail, List.reverse_reverse]

/-- The loop trims before it parses; the parser trims again, which changes nothing. -/
theorem parse_trim (s : Str) : parse_log_line_jsonl from_jsonl_str (trim s)
    = parse_log_line_jsonl from_jsonl_str s := by
  simp [parse_log_line_jsonl, trim_trim]

/-- **The read loop.**  On lines that are all UTF-8 it returns their passing events. -/
theorem readLoop_eq (fs : List TimeFilter) : ∀ ls : List Bytes, (∀ l ∈ ls, (fromUtf8 l).isSome) →
    readLoop from_jsonl_str fs (extract_until fs) ls
      = .ok ((ls.filterMap (lineEvent from_jsonl_str)).filter fun e => fs.all (·.is_match e.time)) := by
  intro ls
  induction ls with
  | nil =>
      intro _
      exact rfl
  | cons l ls ih =>
      intro h
      obtain ⟨s, hs⟩ := Option.isSome_iff_exists.1 (h l List.mem_cons_self)
      have ih := ih fun l' hl' => h l' (List.mem_cons_of_mem _ hl')
      have hev : lineEvent from_jsonl_str l = parse_log_line_jsonl from_jsonl_str s := by
        simp [lineEvent, hs]
      simp only [readLoop, hs, List.filterMap_cons, hev, parse_trim]
      by_cases hblank : trim s = []
      · simp only [hblank, if_true, parse_blank hblank]
        exact ih
      · simp only [hblank, if_false]
        cases parse_log_line_jsonl from_jsonl_str s with
        | none => exact ih
        | some e =>
            by_cases hpass : fs.all (·.is_match e.time) = true
            · simp only [hpass, if_true, until_not_exceeded hpass, Bool.false_eq_true, if_false, ih,
                List.filter_cons]
              rfl
            · simp only [hpass, if_false, List.filter_cons, Bool.false_eq_true]
              exact ih

/-- A line that is not UTF-8 makes the loop fail: no break comes first, because the loop never
breaks on a passing event. -/
theorem readLoop_error (fs : List TimeFilter) : ∀ ls : List Bytes,
    (¬ ∀ l ∈ ls, (fromUtf8 l).isSome) →
    readLoop from_jsonl_str fs (extract_until fs) ls = .error .invalidData := by
  intro ls
  induction ls with
  | nil =>
      intro h
      exact absurd (by simp) h
  | cons l ls ih =>
      intro h
      simp only [readLoop]
      cases hs : fromUtf8 l with
      | none => rfl
      | some s =>
          have hrest : ¬ ∀ l' ∈ ls, (fromUtf8 l').isSome := fun hall => h fun l' hl' => by
            rcases List.mem_cons.1 hl' with rfl | hl'
            · simp [hs]
            · exact hall l' hl'
          have ih := ih hrest
          simp only [parse_trim]
          split
          · exact ih
          · cases parse_log_line_jsonl from_jsonl_str s with
            | none => exact ih
            | some e =>
                by_cases hpass : fs.all (·.is_match e.time) = true
                · simp only [hpass, if_true, until_not_exceeded hpass, Bool.false_eq_true, if_false,
                    ih]
                  rfl
                · simp only [hpass, if_false, Bool.false_eq_true]
                  exact ih

/-- The read loop succeeds with `evs` iff every line is UTF-8 and `evs` are the passing events. -/
theorem readLoop_eq_ok_iff (fs : List TimeFilter) (file : Bytes) (evs : List FileEvent) :
    readLoop from_jsonl_str fs (extract_until fs) (splitLines file) = .ok evs ↔
      (∀ l ∈ splitLines file, (fromUtf8 l).isSome) ∧ matching from_jsonl_str fs file = evs := by
  by_cases h : ∀ l ∈ splitLines file, (fromUtf8 l).isSome
  · rw [readLoop_eq fs _ h]
    simp only [Except.ok.injEq, matching, events]
    exact ⟨fun he => ⟨h, he⟩, fun he => he.2⟩
  · rw [readLoop_error fs _ h]
    simp [h]

end Scan

/-! ## When the indexed query is the full scan -/

/-- Reading from byte `p` on loses nothing: the bytes from there are lines of UTF-8, and they
hold the passing events of the whole file. -/
def Intact (time_filters : List TimeFilter) (file : Bytes) (p : Nat) : Prop :=
  (∀ l ∈ splitLines (file.drop p), (fromUtf8 l).isSome) ∧
    matching from_jsonl_str time_filters (file.drop p) = matching from_jsonl_str time_filters file

section Plain

variable {from_jsonl_str}

/-- The window of a midpoint finds the start of the midpoint's line. -/
theorem window_line_start {pre post : List Bytes} {l : Bytes} {m : Nat}
    (hls : IsLines (pre ++ l :: post)) (hascii : isAscii (pre ++ l :: post).flatten)
    (hlen : l.length ≤ SCAN_BACK_BYTES) (hlo : pre.flatten.length ≤ m)
    (hhi : m < pre.flatten.length + l.length) :
    (m - SCAN_BACK_BYTES) + (match rfindNewline (fromUtf8Lossy
        (((pre ++ l :: post).flatten.drop (m - SCAN_BACK_BYTES)).take
          (m - (m - SCAN_BACK_BYTES)))) with
      | some p => p + 1
      | none => 0) = pre.flatten.length := by
  have hsplit : (pre ++ l :: post).flatten = pre.flatten ++ (l ++ post.flatten) := by simp
  have hpart : newline ∉ l.take (m - pre.flatten.length) :=
    hls.drop.notMem_take (by omega)
  rw [hsplit] at hascii ⊢
  -- the first line has no newline before it, every other line has one inside the window
  rcases hls.before with rfl | ⟨body, hbody⟩
  · have hm : m - SCAN_BACK_BYTES = 0 := by simp at hhi; omega
    have htake : m - ([] : List Bytes).flatten.length ≤ l.length := by simp at hhi ⊢; omega
    simp only [hm, List.flatten_nil, List.nil_append, List.drop_zero, Nat.sub_zero,
      List.length_nil] at hascii hpart htake ⊢
    have hlascii : isAscii (l.take m) :=
      fun b hb => hascii b (List.mem_append_left _ (List.mem_of_mem_take hb))
    rw [List.take_append_of_le_length htake, rfindNewline_ascii_none hlascii hpart]
    rfl
  · have hb : pre.flatten.length = body.length + 1 := by simp [hbody]
    have hdrop : m - SCAN_BACK_BYTES ≤ body.length := by omega
    have hwin : ((pre.flatten ++ (l ++ post.flatten)).drop (m - SCAN_BACK_BYTES)).take
          (m - (m - SCAN_BACK_BYTES))
        = body.drop (m - SCAN_BACK_BYTES) ++ newline :: l.take (m - pre.flatten.length) := by
      rw [hbody, List.append_assoc, List.drop_append_of_le_length hdrop, List.take_append,
        List.take_of_length_le (by simp; omega), List.singleton_append,
        show m - (m - SCAN_BACK_BYTES) - (body.drop (m - SCAN_BACK_BYTES)).length
          = (m - (body ++ [newline]).length) + 1 by simp; omega, List.take_succ_cons,
        List.take_append_of_le_length (by simp; omega)]
    have hwascii : isAscii (body.drop (m - SCAN_BACK_BYTES) ++
        newline :: l.take (m - pre.flatten.length)) := by
      rw [← hwin]
      exact fun b hb => hascii b (List.mem_of_mem_drop (List.mem_of_mem_take hb))
    rw [hwin, rfindNewline_ascii hwascii hpart]
    simp only [List.length_drop]
    omega

/-- On a plain log a probe judges the whole line of its midpoint. -/
theorem probe_plain {pre post : List Bytes} {l : Bytes} {m : Nat} {since : Int}
    (hls : IsLines (pre ++ l :: post)) (hascii : isAscii (pre ++ l :: post).flatten)
    (hlen : l.length ≤ SCAN_BACK_BYTES) (hlo : pre.flatten.length ≤ m)
    (hhi : m < pre.flatten.length + l.length) :
    probe from_jsonl_str (pre ++ l :: post).flatten since m
      = .ok (lineTooEarly from_jsonl_str since l) := by
  have hl : l ≠ [] := by
    rintro rfl
    simp only [List.length_nil] at hhi
    omega
  have hdrop : (pre ++ l :: post).flatten.drop pre.flatten.length = (l :: post).flatten := by simp
  obtain ⟨s, hs⟩ := Option.isSome_iff_exists.1 (fromUtf8_ascii fun b hb =>
    hascii b (by simp; exact Or.inr (Or.inl hb)))
  simp only [probe]
  rw [window_line_start hls hascii hlen hlo hhi, hdrop, readLine_flatten hls.drop]
  simp only [hl, if_false, hs, parse_trim, lineTooEarly, lineEvent, Option.bind_some]
  cases parse_log_line_jsonl from_jsonl_str s <;> rfl

/-- **The bisection on a plain log.**  If every line before some point is too early and no line
after it is, the search returns the offset of that point. -/
theorem find_first_event_after_plain {early late : List Bytes} {since : Int}
    (hls : IsLines (early ++ late)) (hascii : isAscii (early ++ late).flatten)
    (hlen : ∀ l ∈ early ++ late, l.length ≤ SCAN_BACK_BYTES)
    (hearly : ∀ l ∈ early, lineTooEarly from_jsonl_str since l = true)
    (hlate : ∀ l ∈ late, lineTooEarly from_jsonl_str since l = false) :
    find_first_event_after from_jsonl_str (early ++ late).flatten since
      = .ok early.flatten.length := by
  apply Bisect.bisect_threshold _ _ _ (by simp) (Nat.zero_le _) (by simp)
  intro m _ hm
  obtain ⟨pre, l, post, heq, hlo, hhi⟩ := exists_line_at hm
  have hprobe : probe from_jsonl_str (early ++ late).flatten since m
      = .ok (lineTooEarly from_jsonl_str since l) := by
    rw [heq] at hls hascii hlen ⊢
    exact probe_plain hls hascii (hlen l (by simp)) hlo hhi
  rw [hprobe]
  rcases List.append_eq_append_iff.1 heq with ⟨mid, rfl, hrest⟩ | ⟨mid, rfl, hrest⟩
  · -- the line is past the point
    have hmem : l ∈ late := by simp [hrest]
    have hge : early.flatten.length ≤ m := by
      rw [List.flatten_append, List.length_append] at hlo
      omega
    rw [hlate l hmem, decide_eq_false (Nat.not_lt.2 hge)]
  · cases mid with
    | nil =>
        rw [List.nil_append] at hrest
        have hmem : l ∈ late := by simp [← hrest]
        have hge : (pre ++ []).flatten.length ≤ m := by simpa using hlo
        rw [hlate l hmem, decide_eq_false (Nat.not_lt.2 hge)]
    | cons k mid =>
        rw [List.cons_append, List.cons.injEq] at hrest
        obtain ⟨rfl, _⟩ := hrest
        have hlt : m < (pre ++ l :: mid).flatten.length := by
          rw [List.flatten_append, List.flatten_cons, List.length_append, List.length_append]
          omega
        rw [hearly l (by simp), decide_eq_true hlt]

end Plain

/-! ## A log whose torn tail hides its only event

One `CREATE` record, then a longer record cut off by a crash.  The first midpoint falls into the
torn record, which is judged too early, and the search ends past the end of the file. -/

/-- The complete record of `tornLog`. -/
def wholeLine : String :=
  "\x7b\"time\":\"2026-01-01T00:00:00Z\",\"event_type\":\"CREATE\",\"path\":\"/a\",\"pid\":1," ++
    "\"comm\":\"c\",\"cmd\":\"c\",\"user\":\"u\",\"file_size\":0\x7d"

def wholeEvent : FileEvent where
  time := 1767225600000000000
  event_type := .create
  path := [[0x61]]
  pid := 1
  comm := "c"
  cmd := "c"
  user := "u"
  file_size := 0
  ppid := 0
  tgid := 0
  chain := []
  fs_error := none

/-- `serde_json` on the lines of `tornLog`: the complete record parses, nothing else does. -/
def parseWhole (s : Str) : Option FileEvent := if s = wholeLine.toList then some wholeEvent else none

/-- `--time ">=2026-01-01T00:00:00Z"`. -/
def sinceNewYear : List TimeFilter := [⟨.ge, 1767225600000000000⟩]

end Fsmon.Query
