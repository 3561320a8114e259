/-
# `Fsmon.Query.Changes` — `fsmon changes`

`Query::execute_changes` reads the log files one after the other, keeps the latest
event of each path in a hash map, sorts what the map holds by time, the newest
first, and prints it.

    path_ok            the path filters
    read_files         the loop over the files; an error of one ends it
    newest_first       `sort_by_key(Reverse(time))`
    execute_changes    all of it; the order in which the map is iterated is an argument

`changes_latest` says what is printed whatever that order is.
-/
import Fsmon.Query
import Fsmon.Lib.Latest
import Mathlib.Data.List.Sort

namespace Fsmon.Query

/-- The path filters: without any, every event passes. -/
def path_ok (path_filters : Option (List PathBuf)) (event : FileEvent) : Bool :=
  match path_filters with
  | none => true
  | some pfs => pfs.any fun pf => event.path.startsWith pf

/-- One event: dropped by the path filters, or fed to the map. -/
def keep_event (path_filters : Option (List PathBuf)) (latest_by_path : HashMap PathBuf FileEvent)
    (event : FileEvent) : HashMap PathBuf FileEvent :=
  if path_ok path_filters event then
    insert_latest FileEvent.path FileEvent.time latest_by_path event
  else latest_by_path

section
variable {φ ε : Type}

/-- The loop over the log files. -/
def read_files (read_events_from : φ → Except ε (List FileEvent))
    (path_filters : Option (List PathBuf)) :
    HashMap PathBuf FileEvent → List φ → Except ε (HashMap PathBuf FileEvent)
  | latest_by_path, [] => .ok latest_by_path
  | latest_by_path, log_file :: rest =>
      match read_events_from log_file with
      | .error e => .error e
      | .ok events =>
          read_files read_events_from path_filters
            (events.foldl (keep_event path_filters) latest_by_path) rest

/-- `sort_by_key` with the time reversed: a stable sort, the newest first. -/
def newest_first (events : List FileEvent) : List FileEvent :=
  events.insertionSort fun a b => b.time ≤ a.time

/-- The events that are printed.  `into_values` gives the values of a map in the order the map is
iterated in. -/
def execute_changes (read_events_from : φ → Except ε (List FileEvent))
    (into_values : HashMap PathBuf FileEvent → List FileEvent)
    (path_filters : Option (List PathBuf)) (log_files : List φ) : Except ε (List FileEvent) :=
  -- without files only "No matching log files found" is printed
  if log_files.isEmpty then .ok []
  else
    match read_files read_events_from path_filters ∅ log_files with
    | .error e => .error e
    | .ok latest_by_path => .ok (newest_first (into_values latest_by_path))

/-! ## What is printed -/

/-- Feeding a map drops what does not pass, and no more. -/
theorem foldl_keep_event (path_filters : Option (List PathBuf)) :
    ∀ (events : List FileEvent) (m : HashMap PathBuf FileEvent),
      events.foldl (keep_event path_filters) m =
        (events.filter (path_ok path_filters)).foldl
          (insert_latest FileEvent.path FileEvent.time) m := by
  intro events
  induction events with
  | nil =>
      intro _
      exact rfl
  | cons event events ih =>
      intro m
      rw [List.foldl_cons, ih, keep_event]
      split
      · rename_i hok
        rw [List.filter_cons_of_pos hok, List.foldl_cons]
      · rename_i hok
        rw [List.filter_cons_of_neg hok]

/-- The events of the files, in the order they are read. -/
def input (read : φ → List FileEvent) (path_filters : Option (List PathBuf)) (log_files : List φ) :
    List FileEvent :=
  (log_files.flatMap read).filter (path_ok path_filters)

theorem read_files_eq {read_events_from : φ → Except ε (List FileEvent)} {read : φ → List FileEvent}
    (path_filters : Option (List PathBuf)) : ∀ (log_files : List φ) (m : HashMap PathBuf FileEvent),
      (∀ f ∈ log_files, read_events_from f = .ok (read f)) →
      read_files read_events_from path_filters m log_files =
        .ok ((input read path_filters log_files).foldl
          (insert_latest FileEvent.path FileEvent.time) m) := by
  intro log_files
  induction log_files with
  | nil =>
      intro _ _
      exact rfl
  | cons f rest ih =>
      intro m hread
      rw [read_files, hread f List.mem_cons_self]
      simp only
      rw [ih _ fun d hd => hread d (List.mem_cons_of_mem f hd), foldl_keep_event, input, input,
        List.flatMap_cons, List.filter_append, List.foldl_append]

/-- One event for each path, the latest, the newest first. -/
structure Changes (events out : List FileEvent) : Prop where
  once : (out.map FileEvent.path).Nodup
  all : ∀ e ∈ events, e.path ∈ out.map FileEvent.path
  only : ∀ e ∈ out, e ∈ events
  latest : ∀ e ∈ out, ∀ d ∈ events, d.path = e.path → d.time ≤ e.time
  sorted : out.Pairwise fun a b => b.time ≤ a.time

/-- The values of a map of latest events, sorted. -/
theorem changes_of_latest {events vs : List FileEvent} {m : HashMap PathBuf FileEvent}
    (h : Latest FileEvent.path FileEvent.time events m) (hvs : vs.Perm m.values) :
    Changes events (newest_first vs) := by
  have hperm : (newest_first vs).Perm m.values := (List.perm_insertionSort _ vs).trans hvs
  have hpaths : ((newest_first vs).map FileEvent.path).Perm (m.values.map FileEvent.path) :=
    hperm.map _
  have htotal : Std.Total fun a b : FileEvent => b.time ≤ a.time := ⟨fun a b => le_total _ _⟩
  have htrans : IsTrans FileEvent fun a b => b.time ≤ a.time :=
    ⟨fun a b c hab hbc => le_trans hbc hab⟩
  exact {
    once := hpaths.nodup_iff.2 h.nodup_values
    all := fun e he => hpaths.mem_iff.2 (h.key_mem_values he)
    only := fun e he => (h.mem_values (hperm.mem_iff.1 he)).1
    latest := fun e he => (h.mem_values (hperm.mem_iff.1 he)).2
    sorted := List.pairwise_insertionSort _ vs }

/-- **The changes query**, for whatever the files are read as: there is one list of events, and in
whatever order the map is iterated, a list of these is printed that has, for each path among the
passing events, the latest of them, the newest first. -/
theorem changes_latest {read_events_from : φ → Except ε (List FileEvent)}
    {read : φ → List FileEvent} {log_files : List φ} (path_filters : Option (List PathBuf))
    (hread : ∀ f ∈ log_files, read_events_from f = .ok (read f)) :
    ∃ kept, ∀ into_values : HashMap PathBuf FileEvent → List FileEvent,
      (∀ m, (into_values m).Perm m.values) →
        ∃ out, execute_changes read_events_from into_values path_filters log_files = .ok out ∧
          out.Perm kept ∧ Changes (input read path_filters log_files) out := by
  have hlatest : Latest FileEvent.path FileEvent.time (input read path_filters log_files)
      ((input read path_filters log_files).foldl
        (insert_latest FileEvent.path FileEvent.time) ∅) := latest_foldl _ latest_nil
  have hfiles := read_files_eq path_filters log_files ∅ hread
  generalize (input read path_filters log_files).foldl
    (insert_latest FileEvent.path FileEvent.time) ∅ = m at hlatest hfiles
  refine ⟨m.values, fun into_values hvalues => ⟨newest_first (into_values m), ?_, ?_, ?_⟩⟩
  · rw [execute_changes]
    split
    · -- no file, nothing read
      rename_i hempty
      rw [List.isEmpty_iff.1 hempty] at hfiles
      cases hfiles
      rw [(hvalues ∅).eq_nil]
      exact rfl
    · rw [hfiles]
  · exact (List.perm_insertionSort _ _).trans (hvalues m)
  · exact changes_of_latest hlatest (hvalues m)

end

/-- `execute_changes` on log files, each read as the query reads it. -/
def changes_of_logs (from_jsonl_str : Str → Option FileEvent) (time_filters : List TimeFilter)
    (into_values : HashMap PathBuf FileEvent → List FileEvent)
    (path_filters : Option (List PathBuf)) (log_files : List Bytes) :
    Except ReadError (List FileEvent) :=
  execute_changes
    (fun file => read_events_from from_jsonl_str time_filters file (extract_since time_filters)
      (extract_until time_filters)) into_values path_filters log_files

/-- Two logs with a record of `/a` each, below `/a`: one of the two is printed. -/
theorem changes_of_two_logs :
    changes_of_logs parseWhole sinceNewYear HashMap.values (some [[[0x61]]])
        [Text.bytesOf wholeLine, Text.bytesOf wholeLine] = .ok [wholeEvent] ∧
      ∃ out, changes_of_logs parseWhole sinceNewYear HashMap.values (some [[[0x61]]])
          [Text.bytesOf wholeLine, Text.bytesOf wholeLine] = .ok out ∧
        Changes (input (fun _ => [wholeEvent]) (some [[[0x61]]])
          [Text.bytesOf wholeLine, Text.bytesOf wholeLine]) out := by
  have hread : ∀ f ∈ [Text.bytesOf wholeLine, Text.bytesOf wholeLine],
      read_events_from parseWhole sinceNewYear f (extract_since sinceNewYear)
        (extract_until sinceNewYear) = .ok [wholeEvent] := by
    intro f hf
    simp only [List.mem_cons, List.not_mem_nil, or_false, or_self] at hf
    rw [hf]
    decide +kernel
  refine ⟨by decide +kernel, ?_⟩
  obtain ⟨_, hout⟩ := changes_latest (some [[[0x61]]]) hread
  obtain ⟨out, heq, _, hchanges⟩ := hout HashMap.values fun _ => List.Perm.refl _
  exact ⟨out, heq, hchanges⟩

end Fsmon.Query
