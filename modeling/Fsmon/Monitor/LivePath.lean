/-
# `Fsmon.Monitor.LivePath` — adding, removing and re-finding paths at run time

`live_path.rs`, `temp_marks.rs`, `dir_watcher.rs` and `filtering.rs` of the
monitor, as functions of the daemon's state and of what the system answers.

    add_path               already monitored / log directory / pending / a new root
    remove_path            one cmd group of a path, or the path with its mark
    add_temp_parent_mark   the nearest existing ancestor of a target that is gone
    setup_inotify_watches  parents of pending paths, roots, other directories
    check_pending          one attempt for each pending path
    on_new_subdirectory    mark, cache and watch a directory that appeared

Every error of `add_path` and `remove_path` leaves the state as it was, so both
return `Except`; `add_path` returns the text of its outermost error context.
-/
import Fsmon.Monitor

namespace Fsmon

namespace Monitor

/-! ## Entries -/

/-- All PathOptions for a path, from monitored_entries. -/
def opts_for_path (m : Monitor) (path : PathBuf) : List PathOptions :=
  (m.monitored_entries.filter fun e => e.1 = path).map (·.2)

/-- The first PathOptions entry for a path. -/
def first_opt_for_path (m : Monitor) (path : PathBuf) : Option PathOptions :=
  (m.monitored_entries.find? fun e => e.1 = path).map (·.2)

/-- The group on a file system, with its key. -/
def group_on (m : Monitor) (dev_id : Nat) : Option (Nat × FsGroup) :=
  m.fanotify.groups.find fun g => g.dev_id = dev_id

/-- `self.metrics.set_monitored_paths(self.monitored_entries.len())`. -/
def count_monitored (m : Monitor) : Monitor :=
  { m with metrics := m.metrics.set_monitored_paths m.monitored_entries.length }

/-- `self.metrics.set_reader_groups(self.fanotify.groups.len())`. -/
def count_groups (m : Monitor) : Monitor :=
  { m with metrics := m.metrics.set_reader_groups m.fanotify.groups.len }

/-- `self.metrics.set_pending_paths(self.inotify_state.pending_paths.len())`. -/
def count_pending (m : Monitor) : Monitor :=
  { m with metrics := m.metrics.set_pending_paths m.inotify_state.pending_paths.length }

/-- Spawn a reader task for a group; its cache is the shared one. -/
def spawn_fd_reader (os : Os) (m : Monitor) (key : Nat) : Monitor :=
  if m.event_tx && m.fanotify.shared_dir_cache && os.dup_ok then
    { m with readers := m.readers ++ [key] }.count_groups
  else m

/-- The marking walk, below `dir`, with the cache handle that is set at the time. -/
def mark_recursive (os : Os) (m : Monitor) (fan_fd : Nat) (mask : Mask) (dir : PathBuf)
    (max_depth : Option Nat) : Monitor × List PathBuf :=
  let w := mark_recursive_with_depth os m.kernel m.fanotify.dir_cache fan_fd mask dir max_depth
    m.fanotify.shared_dir_cache
  ({ m with kernel := w.kernel, fanotify := { m.fanotify with dir_cache := w.dir_cache } },
    w.discovered)

/-! ## Watches -/

/-- `ino.watches().add(path, mask)`, for a path that is not watched yet. -/
def add_watch (os : Os) (s : InotifyState) (path : PathBuf) (mask : WatchMask) : InotifyState :=
  match (os.fs.metadata path).filter fun n => os.watch_ok n.ino with
  | none => s
  | some node =>
      { s with watches := s.watches ++ [(path, node.ino)], added := s.added ++ [(node.ino, mask)] }

def is_watched (s : InotifyState) (path : PathBuf) : Bool := s.watches.any fun w => w.1 = path

/-- 1. Watch parent dirs of pending paths. -/
def watch_pending (os : Os) (s : InotifyState) (e : PathBuf × PathEntry) : InotifyState :=
  match os.nearest_existing_ancestor e.1 with
  | none => s
  | some parent => if is_watched s parent then s else add_watch os s parent (IN_CREATE ||| IN_MOVED_TO)

/-- 2. Watch recursively-monitored directory roots. -/
def watch_root (os : Os) (s : InotifyState) (e : PathBuf × PathOptions) : InotifyState :=
  if e.2.recursive = false ∨ os.is_dir e.1 = false ∨ is_watched s e.1 = true then s
  else add_watch os s e.1 (IN_CREATE ||| IN_MOVED_TO ||| (IN_DELETE_SELF ||| IN_MOVE_SELF))

/-- 3. Watch non-recursive monitored directories for self-deletion. -/
def watch_self (os : Os) (s : InotifyState) (e : PathBuf × PathOptions) : InotifyState :=
  if e.2.recursive = true ∨ os.is_dir e.1 = false ∨ is_watched s e.1 = true then s
  else add_watch os s e.1 (IN_DELETE_SELF ||| IN_MOVE_SELF)

def setup_inotify_watches (os : Os) (m : Monitor) : Monitor :=
  if m.inotify_state.inotify = false then m
  else
    let s₁ := m.inotify_state.pending_paths.foldl (watch_pending os) m.inotify_state
    let s₂ := m.monitored_entries.foldl (watch_root os) s₁
    { m with inotify_state := m.monitored_entries.foldl (watch_self os) s₂ }

/-- Recursively add inotify watches for `dir` and all existing subdirectories, links followed; at
most `n` deep. -/
def watch_recursive (os : Os) (mask : WatchMask) : Nat → PathBuf → InotifyState → InotifyState
  | 0, _, s => s
  | n + 1, dir, s =>
      if is_watched s dir then s
      else
        ((os.fs.read_dir dir).getD []).foldl
          (fun s e =>
            if os.is_dir (dir.join e.1) then watch_recursive os mask n (dir.join e.1) s else s)
          (add_watch os { s with entered := s.entered ++ [dir] } dir mask)

/-- Deeper than any path that resolves: each name descends or follows one of the links. -/
def watch_depth (os : Os) : Nat := (FsTree.MAX_LINKS + 1) * (os.fs.nodes.length + 1) + 1

/-! ## add_path -/

section
variable [Sizefilter]

/-- The path is already monitored: add the cmd and widen the mark of the root. -/
def add_cmd (os : Os) (m : Monitor) (path : PathBuf) (opts : PathOptions) : Monitor :=
  let m₁ := { m with monitored_entries := m.monitored_entries ++ [(path, opts)] }
  let new_mask := PathOptions.masks_of (m₁.opts_for_path path)
  let m₂ :=
    match m₁.fanotify.path_to_group.lookup path with
    | none => m₁
    | some gi =>
        match m₁.fanotify.groups.get gi with
        | none => { m₁ with panicked := true }
        | some group =>
            let canonical := (m₁.canonical_paths[m₁.paths.idxOf path]?).getD path
            if m₁.fanotify.factory then
              { m₁ with kernel := m₁.kernel.mark_directory os group.fan_fd new_mask canonical }
            else m₁
  m₂.count_monitored

/-- The text of the error for `fsmon` as a cmd. -/
def CMD_FSMON : Str :=
  ("Cannot monitor 'fsmon' process: fsmon daemon's own events " ++
    "are excluded from monitoring.").toList

/-- The text of the error for a path that overlaps with the log directory. -/
def overlap_message (path log_dir : PathBuf) (is_exact : Bool) : Str :=
  "Cannot monitor '".toList ++ path.display ++ "': ".toList ++
    (if is_exact then "this path is the log directory itself".toList
     else "log directory '".toList ++ log_dir.display ++ "' is inside this path".toList) ++
    (" — Tip: use a path outside the log directory, or use a different logging.path").toList

/-- Reject paths that overlap with the log directory. -/
def log_dir_overlap (os : Os) (m : Monitor) (path : PathBuf) (recursive : Bool) : Option Str :=
  match m.log_dir with
  | none => none
  | some log_dir =>
      let log_canonical := os.canonical log_dir
      if log_canonical = path ∨ (recursive && log_canonical.startsWith path) = true then
        some (overlap_message path log_dir (log_canonical = path))
      else none

/-- The path does not exist yet. -/
def queue_pending (os : Os) (m : Monitor) (path : PathBuf) (entry : PathEntry) : Monitor :=
  if m.inotify_state.pending_paths.any fun e => e.1 = path && e.2.cmd = entry.cmd then m
  else
    { m with
      inotify_state :=
        { m.inotify_state with
          pending_paths := m.inotify_state.pending_paths ++ [(path, entry)] } }.setup_inotify_watches os

/-- Mark a new root on a group that exists; a root that cannot be opened or marked is only warned
about. -/
def mark_on_group (os : Os) (m : Monitor) (fan_fd : Nat) (canonical : PathBuf) (opts : PathOptions) :
    Monitor :=
  match os.open_dir_safe canonical with
  | none => m
  | some dir =>
      match m.kernel.mark_directory_at os fan_fd dir opts.path_mask_from_options with
      | none => m
      | some k =>
          if opts.recursive && os.is_dir canonical then
            ({ m with kernel := k }.mark_recursive os fan_fd opts.path_mask_from_options canonical
              opts.max_depth).1
          else { m with kernel := k }

/-- The end of `add_path`: record the new root under its group. -/
def register (os : Os) (m : Monitor) (path canonical : PathBuf) (opts : PathOptions) (key : Nat) :
    Monitor :=
  let m₁ : Monitor :=
    { m with
      fanotify := { m.fanotify with path_to_group := m.fanotify.path_to_group.insert path key }
      paths := m.paths ++ [path]
      canonical_paths := m.canonical_paths ++ [canonical]
      monitored_entries := m.monitored_entries ++ [(path, opts)] }
  let m₂ :=
    if opts.recursive = false ∧ os.is_dir canonical = true ∧ m₁.fanotify.shared_dir_cache = true then
      { m₁ with
        fanotify :=
          { m₁.fanotify with dir_cache := cache_dir_handle os m₁.fanotify.dir_cache canonical } }
    else m₁
  m₂.count_monitored

/-- A root that exists and is not monitored yet: mark it and record it. -/
def add_root (os : Os) (m : Monitor) (path : PathBuf) (opts : PathOptions) : Except Str Monitor :=
  let canonical := os.canonical path
  let path_mask := opts.path_mask_from_options
  match m.group_on (os.dev_id canonical) with
  | some (key, group) =>
      let m₁ := m.mark_on_group os group.fan_fd canonical opts
      let m₂ :=
        { m₁ with
          fanotify :=
            { m₁.fanotify with
              groups := m₁.fanotify.groups.modify key fun g => { g with ref_count := g.ref_count + 1 } } }
      .ok (m₂.register os path canonical opts key)
  | none =>
      match os.open_dir_safe canonical with
      | none => .error ("open_dir_safe failed: ".toList ++ canonical.display)
      | some dir =>
          match m.kernel.create_group_and_mark os dir path_mask with
          | none =>
              .error
                ("fanotify group creation failed for ".toList ++ canonical.display ++
                  " (requires Linux 5.9+ kernel)".toList)
          | some (new_fd, k) =>
              let m₁ :=
                if opts.recursive && os.is_dir canonical then
                  ({ m with kernel := k }.mark_recursive os new_fd path_mask canonical
                    opts.max_depth).1
                else { m with kernel := k }
              let key := m₁.fanotify.groups.next
              let m₂ :=
                { m₁ with
                  fanotify :=
                    { m₁.fanotify with
                      groups := m₁.fanotify.groups.insert ⟨os.dev_id canonical, new_fd, 1⟩ } }
              .ok ((m₂.spawn_fd_reader os key).register os path canonical opts key)

def add_path (os : Os) (m : Monitor) (entry : PathEntry) : Except Str Monitor :=
  let path := os.canonical entry.path
  if path ∈ m.paths then
    match PathOptions.try_from entry with
    | .error e => .error e
    | .ok opts => .ok (m.add_cmd os path opts)
  else
    match m.log_dir_overlap os path (entry.recursive.getD false) with
    | some msg => .error msg
    | none =>
        if os.exists path = false then .ok (m.queue_pending os path entry)
        else
          match PathOptions.try_from entry with
          | .error e => .error e
          | .ok opts =>
              if opts.cmd = some "fsmon" then .error CMD_FSMON
              else if m.fanotify.factory = false then
                .error "fanotify factory has not been started".toList
              else m.add_root os path opts

/-! ## remove_path -/

/-- Drop the root's mark and its place in the group, if it has one. -/
def release_root (os : Os) (m : Monitor) (path : PathBuf) (pos : Nat) : Monitor :=
  match m.fanotify.path_to_group.lookup path with
  | none => m
  | some key =>
      match m.fanotify.groups.get key, m.canonical_paths[pos]? with
      | some group, some canonical =>
          let m₁ :=
            match m.fanotify.factory, os.open_dir_safe canonical with
            | true, some dir =>
                { m with kernel := m.kernel.unmark_directory_at os group.fan_fd dir }
            | _, _ => m
          let groups :=
            m₁.fanotify.groups.modify key fun g => { g with ref_count := g.ref_count - 1 }
          { m₁ with
            fanotify :=
              { m₁.fanotify with
                groups := if group.ref_count - 1 = 0 then groups.remove key else groups } }
      | _, _ => { m with panicked := true }

/-- No entry is left for the path. -/
def forget_path (os : Os) (m : Monitor) (path : PathBuf) : Monitor :=
  if path ∈ m.paths then
    let pos := m.paths.idxOf path
    let m₁ := m.release_root os path pos
    { m₁ with
      paths := m₁.paths.eraseIdx pos
      canonical_paths := m₁.canonical_paths.eraseIdx pos
      fanotify := { m₁.fanotify with path_to_group := m₁.fanotify.path_to_group.erase path } }
  else m

/-- Other cmd groups keep the path: their mask is added to the mark. -/
def remark_path (os : Os) (m : Monitor) (path : PathBuf) : Monitor :=
  let new_mask := PathOptions.masks_of (m.opts_for_path path)
  match m.fanotify.path_to_group.lookup path with
  | none => m
  | some gi =>
      match m.fanotify.groups.get gi with
      | none => { m with panicked := true }
      | some group =>
          let canonical := (m.canonical_paths[m.paths.idxOf path]?).getD path
          if m.fanotify.factory then
            { m with kernel := m.kernel.mark_directory os group.fan_fd new_mask canonical }
          else m

/-- The entries `remove_path` keeps. -/
def keeps (path : PathBuf) (cmd : Option String) (e : PathBuf × PathOptions) : Bool :=
  if e.1 ≠ path then true
  else
    match cmd with
    | some c => e.2.cmd ≠ some c
    | none => false

def remove_path (os : Os) (m : Monitor) (path : PathBuf) (cmd : Option String) : Except Str Monitor :=
  let m₁ := { m with monitored_entries := m.monitored_entries.filter (keeps path cmd) }
  if m.monitored_entries.length - m₁.monitored_entries.length = 0 then
    .error ("Path not found: ".toList ++ path.display)
  else
    let has_other := m₁.monitored_entries.any fun e => e.1 = path
    let m₂ := if has_other then m₁.remark_path os path else m₁.forget_path os path
    .ok m₂.count_monitored.count_groups

/-! ## Temporary parent marks -/

/-- The mask of the entries, active and pending, for a target. -/
def temp_mask (m : Monitor) (target : PathBuf) : Mask :=
  PathOptions.masks_of
    (m.opts_for_path target ++
      (m.inotify_state.pending_paths.filter fun e => e.1 = target).filterMap fun e =>
        (PathOptions.try_from e.2).toOption)

/-- Add a temporary mark on the nearest existing ancestor of a target. -/
def add_temp_parent_mark (os : Os) (m : Monitor) (target : PathBuf) : Monitor :=
  match os.nearest_existing_ancestor target with
  | none => m
  | some parent =>
      if parent = target then m
      else
        let canonical := os.canonical parent
        let path_mask := m.temp_mask target
        -- without an entry the mask is empty, too
        if path_mask = 0 then m
        else if m.fanotify.factory = false then m
        else
          match os.open_dir_safe canonical with
          | none => m
          | some dir =>
              let marked : Option (Monitor × Nat) :=
                match m.group_on (os.dev_id canonical) with
                | some (key, group) =>
                    (m.kernel.mark_directory_at os group.fan_fd dir path_mask).map fun k =>
                      ({ m with
                          kernel := k
                          fanotify :=
                            { m.fanotify with
                              groups :=
                                m.fanotify.groups.modify key fun g =>
                                  { g with ref_count := g.ref_count + 1 } } }, key)
                | none =>
                    (m.kernel.create_group_and_mark os dir path_mask).map fun r =>
                      (spawn_fd_reader os
                        { m with
                          kernel := r.2
                          fanotify :=
                            { m.fanotify with
                              groups := m.fanotify.groups.insert ⟨os.dev_id canonical, r.1, 1⟩ } }
                        m.fanotify.groups.next, m.fanotify.groups.next)
              match marked with
              | none => m
              | some (m₁, key) =>
                  { m₁ with
                    inotify_state :=
                      { m₁.inotify_state with
                        temp_parent_marks :=
                          m₁.inotify_state.temp_parent_marks.insert target (parent, key) } }

/-- Remove a single temporary parent mark and tear down its fanotify resources. -/
def remove_temp_parent_mark (os : Os) (m : Monitor) (target : PathBuf) : Monitor :=
  match m.inotify_state.temp_parent_marks.lookup target with
  | none => m
  | some (parent, key) =>
      let m₁ : Monitor :=
        { m with
          inotify_state :=
            { m.inotify_state with
              temp_parent_marks := m.inotify_state.temp_parent_marks.erase target } }
      match m₁.fanotify.groups.get key with
      | none => m₁
      | some group =>
          let m₂ :=
            match m₁.fanotify.factory, os.open_dir_safe (os.canonical parent) with
            | true, some dir =>
                { m₁ with kernel := m₁.kernel.unmark_directory_at os group.fan_fd dir }
            | _, _ => m₁
          let groups :=
            m₂.fanotify.groups.modify key fun g => { g with ref_count := g.ref_count - 1 }
          { m₂ with
            fanotify :=
              { m₂.fanotify with
                groups := if group.ref_count - 1 = 0 then groups.remove key else groups } }

/-- Remove all temporary parent marks whose target is now monitored. -/
def cleanup_temp_parent_marks (os : Os) (m : Monitor) : Monitor :=
  (m.inotify_state.temp_parent_marks.keys.filter fun t => t ∈ m.paths).foldl
    (remove_temp_parent_mark os) m

/-! ## Pending paths -/

/-- One attempt for each entry, in order: the entries that stay pending. -/
def retry_pending (os : Os) : List (PathBuf × PathEntry) → Monitor → List (PathBuf × PathEntry) →
    Monitor × List (PathBuf × PathEntry)
  | [], m, still => (m, still)
  | e :: rest, m, still =>
      if os.exists e.1 = false then retry_pending os rest m (still ++ [e])
      else
        match m.add_path os e.2 with
        | .ok m' => retry_pending os rest m' still
        | .error _ => retry_pending os rest m (still ++ [e])

/-- `self.inotify_state.pending_paths = pending`. -/
def with_pending (m : Monitor) (pending : List (PathBuf × PathEntry)) : Monitor :=
  { m with inotify_state := { m.inotify_state with pending_paths := pending } }

/-- Retry monitoring for paths that did not exist at add time. -/
def check_pending (os : Os) (m : Monitor) : Monitor :=
  if m.inotify_state.pending_paths = [] ∧ m.inotify_state.temp_parent_marks.entries = [] then m
  else
    let r := retry_pending os m.inotify_state.pending_paths (m.with_pending []) []
    (((r.1.with_pending r.2).cleanup_temp_parent_marks os).setup_inotify_watches os).count_pending

/-- The entries a root that is gone had, as pending entries. -/
def pending_of (path : PathBuf) (opts : List PathOptions) : List (PathBuf × PathEntry) :=
  opts.map fun o => (path, o.to_entry path)

/-- Remove a path; a failure is only warned about. -/
def try_remove (os : Os) (m : Monitor) (path : PathBuf) : Monitor :=
  match m.remove_path os path none with
  | .ok m' => m'
  | .error _ => m

end

/-! ## New subdirectories -/

/-- Canonical paths of the recursive entries. -/
def recursive_roots (os : Os) (m : Monitor) : List PathBuf :=
  (m.monitored_entries.filter fun e => e.2.recursive).map fun e => os.canonical e.1

/-- The mask of all entries, or-ed. -/
def combined_mask (m : Monitor) : Mask := PathOptions.masks_of (m.monitored_entries.map (·.2))

/-- A new directory has been marked: cache its handle, mark what is below it, and watch it. -/
def enter_subdirectory (os : Os) (m : Monitor) (canonical : PathBuf) (fan_fd : Nat) :
    Monitor × List PathBuf :=
  let max_depth := (m.monitored_entries.filterMap fun e => e.2.max_depth).min?
  let cache :=
    if m.fanotify.shared_dir_cache then cache_dir_handle os m.fanotify.dir_cache canonical
    else m.fanotify.dir_cache
  let r :=
    mark_recursive os { m with fanotify := { m.fanotify with dir_cache := cache } } fan_fd
      m.combined_mask canonical max_depth
  let s :=
    if m.inotify_state.inotify then
      watch_recursive os (IN_CREATE ||| IN_MOVED_TO) (watch_depth os) canonical m.inotify_state
    else m.inotify_state
  ({ r.1 with
      inotify_state := s
      touched :=
        m.touched ++
          [⟨(canonical :: r.2 ++ s.entered.drop m.inotify_state.entered.length).map os.canonical,
            m.recursive_roots os⟩] },
    r.2)

/-- Add fanotify mark, cache entry and inotify watches for a new subdirectory, and for what is
below it; the subdirectories the marking walk discovered. -/
def on_new_subdirectory (os : Os) (m : Monitor) (path : PathBuf) : Monitor × List PathBuf :=
  let canonical := os.canonical path
  if os.is_dir canonical = false then (m, [])
  else
    match m.group_on (os.dev_id canonical) with
    | none => (m, [])
    | some (_, group) =>
        match os.open_dir_safe canonical with
        | none => (m, [])
        | some dir =>
            if m.fanotify.factory = false then (m, [])
            else
              match m.kernel.mark_directory_at os group.fan_fd dir m.combined_mask with
              | none => (m, [])
              | some k => enter_subdirectory os { m with kernel := k } canonical group.fan_fd

/-- What a call that gets past its guards has found. -/
theorem on_new_subdirectory_cases (os : Os) (m : Monitor) (path : PathBuf) :
    m.on_new_subdirectory os path = (m, []) ∨
      ∃ key group dir k, m.group_on (os.dev_id (os.canonical path)) = some (key, group) ∧
        os.open_dir_safe (os.canonical path) = some dir ∧ m.fanotify.factory = true ∧
        m.kernel.mark_directory_at os group.fan_fd dir m.combined_mask = some k ∧
        m.on_new_subdirectory os path =
          enter_subdirectory os { m with kernel := k } (os.canonical path) group.fan_fd := by
  unfold on_new_subdirectory
  simp only
  split
  · exact Or.inl rfl
  · split
    · exact Or.inl rfl
    · rename_i key group hgroup
      split
      · exact Or.inl rfl
      · rename_i dir hdir
        split
        · exact Or.inl rfl
        · rename_i hfactory
          split
          · exact Or.inl rfl
          · rename_i k hk
            exact Or.inr ⟨key, group, dir, k, hgroup, hdir, by simpa using hfactory, hk, rfl⟩

/-! ## Inotify events -/

structure InotifyEvent where
  wd : Nat
  mask : WatchMask
  name : Option OsString
  deriving DecidableEq, Repr

/-- The directory a watch descriptor was added for. -/
def watched_path (m : Monitor) (wd : Nat) : Option PathBuf :=
  (m.inotify_state.watches.find? fun w => w.2 = wd).map (·.1)

/-- First pass: the monitored directory an event says is gone. -/
def deleted_path (m : Monitor) (ev : InotifyEvent) : Option PathBuf :=
  if ev.mask &&& IN_DELETE_SELF = 0 ∧ ev.mask &&& IN_MOVE_SELF = 0 then none
  else (m.watched_path ev.wd).filter fun p => p ∈ m.paths

section
variable [Sizefilter]

/-- A pending entry is pushed unless its cmd is pending for the path. -/
def push_pending (path : PathBuf) (m : Monitor) (opts : PathOptions) : Monitor :=
  if m.inotify_state.pending_paths.any fun e => e.1 = path && e.2.cmd = opts.cmd then m
  else m.with_pending (m.inotify_state.pending_paths ++ [(path, opts.to_entry path)])

/-- A monitored directory is gone: its entries become pending. -/
def inotify_deleted (os : Os) (m : Monitor) (path : PathBuf) : Monitor :=
  ((m.opts_for_path path).foldl (push_pending path) (m.try_remove os path)).add_temp_parent_mark os path

/-- Second pass: the directory an event says is new. -/
def new_dir_of (m : Monitor) (ev : InotifyEvent) : Option PathBuf :=
  if ev.mask &&& (IN_CREATE ||| IN_ISDIR) = 0 ∧ ev.mask &&& (IN_MOVED_TO ||| IN_ISDIR) = 0 then none
  else
    match ev.name with
    | none => none
    | some name => (m.watched_path ev.wd).map fun parent => parent.join name

def inotify_created (os : Os) (m : Monitor) (ev : InotifyEvent) : Monitor :=
  match m.new_dir_of ev with
  | none => m
  | some new_dir => (m.on_new_subdirectory os new_dir).1

/-- Handle directory deletion and new subdirectory creation; `none` when reading fails. -/
def handle_inotify_events (os : Os) (m : Monitor) (events : Option (List InotifyEvent)) : Monitor :=
  if m.inotify_state.inotify = false then m
  else
    match events with
    | none => m.check_pending os
    | some events =>
        let deleted_paths := events.filterMap m.deleted_path
        let m₁ := deleted_paths.foldl (inotify_deleted os) m
        let m₂ := if deleted_paths = [] then m₁ else (m₁.setup_inotify_watches os).check_pending os
        (events.foldl (inotify_created os) m₂).check_pending os

end

end Monitor

end Fsmon
