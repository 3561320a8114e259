/-
# `Fsmon.Monitor.Init` — the start of the daemon

`Monitor::new`, `init_fanotify` and `spawn_tasks`, in the order `run` calls them.

    new             reject what overlaps with the log directory, one root for each path
    init_fanotify   paths that do not exist become pending; groups, marks, handles
    spawn_tasks     the shared handle cache, the event channel, one reader for each group

`run` forks the factory between the first two.  The marking walks of
`init_fanotify` are given the shared cache, which `spawn_tasks` sets later.
-/
import Fsmon.Monitor.LivePath

namespace Fsmon

/-- `MonitorConfig`, with the cache configuration resolved. -/
structure MonitorConfig where
  paths_and_options : List (PathBuf × PathOptions)
  log_dir : Option PathBuf
  buffer_size : Option Nat
  cache_buffer_size : Nat
  file_size_capacity : Nat
  metrics_interval : Option Nat
  /-- `std::process::id()`. -/
  pid : Nat

namespace Monitor

/-- The loop of `new`: the roots, each path once, and every entry. -/
def new_entries (os : Os) (log_dir_canonical : Option PathBuf) :
    List (PathBuf × PathOptions) → List PathBuf × List (PathBuf × PathOptions) →
      Except Str (List PathBuf × List (PathBuf × PathOptions))
  | [], acc => .ok acc
  | (path, opts) :: rest, (paths, entries) =>
      let resolved := os.canonical path
      let overlap :=
        match log_dir_canonical with
        | none => none
        | some log_dir =>
            if log_dir = resolved ∨ (opts.recursive && log_dir.startsWith resolved) = true then
              some (overlap_message path log_dir (log_dir = resolved))
            else none
      match overlap with
      | some msg => .error msg
      | none =>
          if opts.cmd = some "fsmon" then .error CMD_FSMON
          else
            new_entries os log_dir_canonical rest
              (if resolved ∈ paths then paths else paths ++ [resolved], entries ++ [(resolved, opts)])

def new (os : Os) (cfg : MonitorConfig) : Except Str Monitor :=
  let buffer_size := cfg.buffer_size.getD cfg.cache_buffer_size
  if buffer_size < 4096 then .error "buffer_size must be at least 4096 bytes (4KB)".toList
  else if 1024 * 1024 < buffer_size then
    .error "buffer_size must not exceed 1048576 bytes (1MB)".toList
  else
    match new_entries os (cfg.log_dir.map os.canonical) cfg.paths_and_options ([], []) with
    | .error e => .error e
    | .ok (paths, monitored_entries) =>
        .ok
          { paths
            canonical_paths := []
            monitored_entries
            log_dir := cfg.log_dir
            fanotify := ⟨.empty, ∅, ∅, false, false⟩
            inotify_state := ⟨false, [], [], ∅, [], []⟩
            file_size_cache := ⟨cfg.file_size_capacity, []⟩
            event_tx := false
            daemon_pid := cfg.pid
            metrics := .new cfg.metrics_interval.isSome
            kernel := .initial
            readers := []
            overflow_warnings := 0
            touched := []
            -- `NonZeroUsize::new(0).unwrap()`
            panicked := cfg.file_size_capacity = 0 }

/-- `spawn_factory`. -/
def spawn_factory (m : Monitor) : Monitor := { m with fanotify := { m.fanotify with factory := true } }

section
variable [Sizefilter]

/-- Collect canonical paths; a path that does not exist goes to pending_paths with its entries. -/
def init_path (os : Os) (m : Monitor) (path : PathBuf) : Monitor :=
  if os.exists path then
    { m with
      paths := m.paths ++ [path]
      canonical_paths := m.canonical_paths ++ [os.canonical path] }
  else
    { m with monitored_entries := m.monitored_entries.filter fun e => e.1 ≠ path }.with_pending
      (m.inotify_state.pending_paths ++ pending_of path (m.opts_for_path path))

end

/-- The first options of a root ask for recursion. -/
def root_recursive (m : Monitor) (path : PathBuf) : Bool :=
  (m.first_opt_for_path path).any fun o => o.recursive

/-- The walk below a root that has been marked, if its first options are recursive. -/
def init_walk (os : Os) (m : Monitor) (fan_fd : Nat) (mask : Mask) (path canonical : PathBuf) : Monitor :=
  if m.root_recursive path && os.is_dir canonical then
    (m.mark_recursive os fan_fd mask canonical
      ((m.first_opt_for_path path).bind fun o => o.max_depth)).1
  else m

/-- Mark one root: on the group of its file system, or on a new one. -/
def init_root (os : Os) (mask : Mask) (st : Monitor × HashMap Nat Nat) (root : PathBuf × PathBuf) :
    Monitor × HashMap Nat Nat :=
  let (m, fs_group_devs) := st
  let (path, canonical) := root
  let dev_id := os.dev_id canonical
  match os.open_dir_safe canonical with
  | none => st
  | some dir =>
      match fs_group_devs.lookup dev_id with
      | some key =>
          match m.fanotify.groups.get key with
          | none => ({ m with panicked := true }, fs_group_devs)
          | some group =>
              let m₁ :=
                match m.kernel.mark_directory_at os group.fan_fd dir mask with
                | none => m
                | some k => init_walk os { m with kernel := k } group.fan_fd mask path canonical
              ({ m₁ with
                  fanotify :=
                    { m₁.fanotify with
                      groups :=
                        m₁.fanotify.groups.modify key fun g => { g with ref_count := g.ref_count + 1 }
                      path_to_group := m₁.fanotify.path_to_group.insert path key } },
                fs_group_devs)
      | none =>
          match m.kernel.create_group_and_mark os dir mask with
          | none => st
          | some (new_fd, k) =>
              let m₁ := init_walk os { m with kernel := k } new_fd mask path canonical
              let key := m₁.fanotify.groups.next
              ({ m₁ with
                  fanotify :=
                    { m₁.fanotify with
                      groups := m₁.fanotify.groups.insert ⟨dev_id, new_fd, 1⟩
                      path_to_group := m₁.fanotify.path_to_group.insert path key } },
                fs_group_devs.insert dev_id key)

/-- Cache the handle of a non-recursive root. -/
def init_cache (os : Os) (m : Monitor) (root : PathBuf × PathBuf) : Monitor :=
  if os.is_dir root.2 && !m.root_recursive root.1 then
    { m with
      fanotify :=
        { m.fanotify with dir_cache := cache_dir_handle os m.fanotify.dir_cache root.2 } }
  else m

section
variable [Sizefilter]

/-- The first half of `init_fanotify`: roots, pending paths and watches. -/
def init_paths (os : Os) (m : Monitor) : Monitor :=
  let m₁ := m.paths.foldl (init_path os) { m with paths := [] }
  setup_inotify_watches os { m₁ with inotify_state := { m₁.inotify_state with inotify := true } }

/-- Initialize fanotify: compute masks, set up groups, pending paths, inotify. -/
def init_fanotify (os : Os) (m : Monitor) : Except Str Monitor :=
  if os.inotify_ok = false then .error "inotify_init".toList
  else
    let m₁ := m.init_paths os
    if m₁.fanotify.factory = false then .error "fanotify factory has not been started".toList
    else
      let roots := m₁.paths.zip m₁.canonical_paths
      let m₂ := (roots.foldl (init_root os m.combined_mask) (m₁, ∅)).1
      .ok (if 0 < m₂.fanotify.groups.len then roots.foldl (init_cache os) m₂ else m₂)

end

/-- Spawn reader tasks; the handle cache is shared with them. -/
def spawn_tasks (os : Os) (m : Monitor) : Monitor :=
  let m₁ := { m with event_tx := true, fanotify := { m.fanotify with shared_dir_cache := true } }
  m₁.fanotify.groups.keys.foldl (spawn_fd_reader os) m₁

/-- The start sequence of `run`. -/
def start [Sizefilter] (os : Os) (cfg : MonitorConfig) : Except Str Monitor :=
  match new os cfg with
  | .error e => .error e
  | .ok m =>
      match m.spawn_factory.init_fanotify os with
      | .error e => .error e
      | .ok m' => .ok (m'.spawn_tasks os)

end Monitor

end Fsmon
