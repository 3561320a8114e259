/-
# `Fsmon.Monitor.Events` — from parsed kernel events to records

`decode_events` of `fid_parser.rs` (the reader's side) and `events.rs` (the
processor's): each `FAN_RENAME` is split into the two moves it describes, and
each event is matched against the entries, active and pending.

    decode_events          drop what has no path, resolve a rename's two halves
    expand_renames         one MOVED_FROM, one MOVED_TO for each half that has a path
    process_event          overflow, gone roots, own events, new directories, records
    process_event_batch    all of it, with the counters

The resolver of the `fanotify-fid` crate is not here: a parsed event carries the
path it gave the event (`path`) and, for a rename, the one it gave the target
half (`target`).
-/
import Fsmon.Monitor.LivePath

namespace Fsmon

/-! ## Decoding -/

/-- A parsed kernel event with what the resolver finds for it in the cache. -/
structure FidEvent where
  mask : Mask
  pid : Int
  /-- The event's own path; the source half of a rename. -/
  path : Option PathBuf
  /-- `resolve_rename_target`: the target half of a rename. -/
  target : Option PathBuf
  fs_error : Option (Int × Nat)
  unknown_info_records : Nat
  deriving DecidableEq, Repr

/-- One decoded event: everything the processor needs, and nothing else. -/
structure DecodedEvent where
  mask : Mask
  pid : Int
  path : PathBuf
  rename : Option (Option PathBuf × Option PathBuf)
  fs_error : Option (Int × Nat)
  unparsed : Nat
  deriving DecidableEq, Repr

/-- One event; without a path of its own it is dropped. -/
def decode_event (ev : FidEvent) : Option DecodedEvent :=
  let rename := if ev.mask &&& FAN_RENAME ≠ 0 then some (ev.path, ev.target) else none
  match ev.path with
  | none => none
  | some path => some ⟨ev.mask, ev.pid, path, rename, ev.fs_error, ev.unknown_info_records⟩

def decode_events (events : List FidEvent) : List DecodedEvent := events.filterMap decode_event

/-! ## Renames -/

/-- One half of a rename: the pair has been spent, and the mask says which half it is. -/
def rename_half (ev : DecodedEvent) (bit : Mask) (path : PathBuf) : DecodedEvent where
  mask := (ev.mask &&& ~~~FAN_RENAME) ||| bit
  pid := ev.pid
  path := path
  rename := none
  fs_error := none
  unparsed := 0

/-- The halves whose path is known, the old location first. -/
def rename_halves (ev : DecodedEvent) (source target : Option PathBuf) : List DecodedEvent :=
  (source.map (rename_half ev FAN_MOVED_FROM)).toList ++
    (target.map (rename_half ev FAN_MOVED_TO)).toList

/-- Split each `FAN_RENAME` into the two moves it describes; and count those with neither. -/
def expand_renames : List DecodedEvent → List DecodedEvent × Nat
  | [] => ([], 0)
  | ev :: rest =>
      let (out, unresolved) := expand_renames rest
      match ev.rename with
      | none => (ev :: out, unresolved)
      | some (source, target) =>
          let sides := rename_halves ev source target
          (sides ++ out, if sides = [] then unresolved + 1 else unresolved)

/-! ## Processing -/

/-- Pending event ready for broadcast. -/
structure PendingEvent where
  event : FileEvent
  cmd_name : String
  pid : Nat
  deriving DecidableEq, Repr

namespace Monitor

/-- Does `event_path` denote the canonical root `canonical`? -/
def is_canonical_root_path (canonical event_path : PathBuf) : Bool :=
  canonical = event_path || (canonical.fileName.isSome && canonical.fileName = event_path.fileName)

/-- The canonical root that a destructive event says is gone. -/
def gone_root (m : Monitor) (event_types : List EventType) (event_path : PathBuf) : Option PathBuf :=
  if event_types.contains .deleteSelf || event_types.contains .movedFrom ||
      event_types.contains .delete then
    m.canonical_paths.find? fun cp => is_canonical_root_path cp event_path
  else none

/-- Check if an event's pid matches the process tree filter of a cmd group. -/
def matches_process_tree (os : Os) (cmd : Option String) (event_pid : Nat) : Bool :=
  match cmd with
  | some cmd_name => os.in_tree cmd_name event_pid
  | none => true

/-- Check if an event path matches a monitored path (recursive or direct). -/
def path_matches (event_path entry_path : PathBuf) (recursive : Bool) : Bool :=
  if recursive then event_path.startsWith entry_path
  else event_path = entry_path || event_path.parent = some entry_path

/-- Check if an event path is within the scope of an entry with these options. -/
def is_path_in_scope_for_opts (m : Monitor) (event_path : PathBuf) (opts : PathOptions) : Bool :=
  m.monitored_entries.any fun e =>
    e.2.cmd = opts.cmd && e.2.recursive = opts.recursive &&
      path_matches event_path e.1 opts.recursive

/-- The size recorded with an event, and the cache after it. -/
def file_size_of (os : Os) (cache : LruCache) (event_type : EventType) (path : PathBuf) :
    Nat × LruCache :=
  match event_type with
  | .create | .modify | .closeWrite =>
      let size := (os.len path).getD 0
      (size, cache.put path size)
  | .delete | .deleteSelf | .movedFrom =>
      let (size, cache') := cache.pop path
      (size.getD 0, cache')
  | _ =>
      let (size, cache') := cache.get path
      (size.getD 0, cache')

/-- `i32::unsigned_abs`. -/
def unsigned_abs (pid : Int) : Nat := pid.natAbs

def build_file_event_for_opts (os : Os) (m : Monitor) (raw : DecodedEvent) (event_type : EventType)
    (opts : PathOptions) : FileEvent × Monitor :=
  let pid := unsigned_abs raw.pid
  let info := os.proc_info pid raw.path
  let (file_size, cache) := file_size_of os m.file_size_cache event_type raw.path
  ({ time := os.now
     event_type
     path := raw.path
     pid
     comm := info.comm
     cmd := info.cmd
     user := info.user
     file_size
     ppid := info.ppid
     tgid := info.tgid
     chain := if opts.cmd.isSome then os.chain pid else []
     fs_error := if event_type = .fsError then raw.fs_error else none },
    { m with file_size_cache := cache })

/-- Record one event type for one entry. -/
def record_type (os : Os) (raw : DecodedEvent) (opts : PathOptions)
    (r : Monitor × List PendingEvent) (event_type : EventType) : Monitor × List PendingEvent :=
  let (event, m) := r.1.build_file_event_for_opts os raw event_type opts
  if m.is_path_in_scope_for_opts event.path opts && PathOptions.should_output (some opts) event then
    (m, r.2 ++ [⟨event, opts.cmd.getD CMD_GLOBAL, unsigned_abs raw.pid⟩])
  else (m, r.2)

/-- Record an event for one entry, if its process is one the entry asks for. -/
def record_entry (os : Os) (raw : DecodedEvent) (r : Monitor × List PendingEvent)
    (e : PathBuf × PathOptions) : Monitor × List PendingEvent :=
  if matches_process_tree os e.2.cmd (unsigned_abs raw.pid) then
    (mask_to_event_types raw.mask).foldl (record_type os raw e.2) r
  else r

/-- Events below the log directory of the system are skipped. -/
def LOG_ROOT : PathBuf := ["var", "log", "fsmon"].map Text.bytesOf

section
variable [Sizefilter]

/-- All PathOptions matching an event path, of active entries and of pending ones. -/
def matching_opts_for_event (m : Monitor) (event_path : PathBuf) : List (PathBuf × PathOptions) :=
  (m.monitored_entries.filter fun e => path_matches event_path e.1 e.2.recursive) ++
    m.inotify_state.pending_paths.filterMap fun e =>
      if path_matches event_path e.1 (e.2.recursive.getD false) then
        (PathOptions.try_from e.2).toOption.map fun o => (e.1, o)
      else none

/-- The event creates a directory below a recursive entry. -/
def is_new_subdirectory (os : Os) (m : Monitor) (raw : DecodedEvent) : Bool :=
  let event_types := mask_to_event_types raw.mask
  (event_types.contains .create || event_types.contains .movedTo) && os.is_dir raw.path &&
    (m.matching_opts_for_event raw.path).any fun e => e.2.recursive && raw.path ≠ e.1

/-- Handle deletion of a monitored canonical root directory. -/
def handle_canonical_root_deleted (os : Os) (m : Monitor) (path : PathBuf) : Monitor :=
  let m₁ := m.try_remove os path
  let m₂ := m₁.with_pending (m₁.inotify_state.pending_paths ++ pending_of path (m.opts_for_path path))
  ((m₂.setup_inotify_watches os).add_temp_parent_mark os path).check_pending os

/-- The event is the daemon's own, or below the log root. -/
def is_skipped (m : Monitor) (raw : DecodedEvent) : Bool :=
  unsigned_abs raw.pid = m.daemon_pid || raw.path.startsWith LOG_ROOT

/-- What follows the counters: mark a new directory, record, clean up a root that is gone. -/
def handle_event (os : Os) (m : Monitor) (raw : DecodedEvent) : Monitor × List PendingEvent :=
  let gone := m.gone_root (mask_to_event_types raw.mask) raw.path
  if m.is_skipped raw then (m, [])
  else
    let matching_entries := m.matching_opts_for_event raw.path
    let m₁ := if m.is_new_subdirectory os raw then (m.on_new_subdirectory os raw.path).1 else m
    let (m₂, out) := matching_entries.foldl (record_entry os raw) (m₁, [])
    match gone with
    | none => (m₂, out)
    | some root => (m₂.handle_canonical_root_deleted os root, out)

/-- One expanded event. -/
def process_event (os : Os) (m : Monitor) (raw : DecodedEvent) : Monitor × List PendingEvent :=
  if raw.mask &&& FAN_Q_OVERFLOW ≠ 0 then
    ({ m with overflow_warnings := m.overflow_warnings + 1 }, [])
  else
    handle_event os
      (if 0 < raw.unparsed then
        { m with metrics := m.metrics.inc_unparsed_info_records raw.unparsed }
      else m) raw

/-- The loop over the expanded events; `os i` is the system during the `i`-th. -/
def process_events : (Nat → Os) → Monitor → List DecodedEvent → Monitor × List PendingEvent
  | _, m, [] => (m, [])
  | os, m, raw :: rest =>
      let (m₁, out) := process_event (os 0) m raw
      let (m₂, more) := process_events (fun i => os (i + 1)) m₁ rest
      (m₂, out ++ more)

/-- Match paths, filter, build records. -/
def process_event_batch (os : Nat → Os) (m : Monitor) (events : List DecodedEvent) :
    Monitor × List PendingEvent :=
  let (expanded, unresolved) := expand_renames events
  process_events os { m with metrics := m.metrics.inc_events_unresolved_rename unresolved } expanded

end

end Monitor

end Fsmon
