/-
# `Fsmon.Monitor` — the daemon's state, and what it asks the system

`Monitor` of `common/monitor.rs` with its fanotify and inotify parts, the state
its calls leave in the kernel, and the marking walk of `common/fid_parser.rs`.

What the system answers during one operation is one value of `Os`: the tree, the
directory handles, which marks and watches succeed, the process tables.  An
operation is a function of it, so a statement about every `Os` covers every tree
and every pattern of failing calls; two operations of a run may see different
ones.

    Kernel      the marks added and removed, by group, oldest first
    Walk        mark_recursive_with_depth, one queue entry at a time
    Monitor     the fields of the source that the modelled functions read

Left out: the `tokio` tasks themselves (a reader is the key it was spawned for),
the eviction of `DirCache` by capacity and age, and what only reports state
(debug lines, uptime, the store path).  `shared_dir_cache` is a clone of
`dir_cache`, which is one table behind an `Arc`; it is kept as whether it is set.
-/
import Fsmon.Options
import Fsmon.Lib.HashMap
import Fsmon.Lib.SlotMap
import Fsmon.Lib.FsTree

namespace Fsmon

/-! ## The system -/

/-- `(Fsid, Vec<u8>)`: a directory handle with the file system that issued it. -/
abbrev HandleKey := Nat × Bytes

/-- `ProcInfo`: what is known of the process behind an event. -/
structure ProcInfo where
  comm : String
  cmd : String
  user : String
  ppid : Nat
  tgid : Nat
  deriving DecidableEq, Repr

/-- What the system answers during one operation. -/
structure Os where
  fs : FsTree.Tree OsString
  /-- `name_to_handle_at` with the fsid, by inode. -/
  handle : Nat → Option HandleKey
  /-- A handle names one directory. -/
  handle_inj : ∀ i j k, handle i = some k → handle j = some k → i = j
  /-- `fanotify_mark(FAN_MARK_ADD)` on this inode succeeds. -/
  mark_ok : Nat → Bool
  /-- `fanotify_mark(FAN_MARK_REMOVE)` on this inode succeeds. -/
  unmark_ok : Nat → Bool
  /-- The factory creates a group and marks this inode. -/
  create_ok : Nat → Bool
  /-- `inotify_add_watch` on this inode succeeds. -/
  watch_ok : Nat → Bool
  /-- `dup` of a group's descriptor succeeds. -/
  dup_ok : Bool
  /-- `inotify_init` succeeds. -/
  inotify_ok : Bool
  /-- `st_size` of an inode that is no regular file. -/
  st_size : Nat → Nat
  now : Int
  proc_info : Nat → PathBuf → ProcInfo
  /-- The process descends from a live process of this name. -/
  in_tree : String → Nat → Bool
  chain : Nat → List ChainLink

/-- A directory descriptor: the object, and the path it was opened by. -/
structure DirFd where
  path : PathBuf
  node : FsTree.Node OsString
  deriving DecidableEq, Repr

namespace Os

variable (os : Os)

/-- `path.exists()`. -/
def «exists» (p : PathBuf) : Bool := (os.fs.metadata p).isSome

def is_dir (p : PathBuf) : Bool := os.fs.is_dir p

/-- `p.canonicalize().unwrap_or_else(|_| p.clone())`; also `resolve_recursion_check`, as an
absolute path has no tilde to expand. -/
def canonical (p : PathBuf) : PathBuf := (os.fs.canonicalize p).getD p

theorem canonical_idem (p : PathBuf) : os.canonical (os.canonical p) = os.canonical p := by
  cases hc : os.fs.canonicalize p with
  | none =>
      have hp : os.canonical p = p := by rw [canonical, hc, Option.getD_none]
      rw [hp, hp]
  | some c =>
      have hp : os.canonical p = c := by rw [canonical, hc, Option.getD_some]
      rw [hp, canonical, FsTree.Tree.canonicalize_idem hc, Option.getD_some]

theorem exists_canonical (p : PathBuf) : os.exists (os.canonical p) = os.exists p := by
  rw [Os.exists, Os.exists, Os.canonical, FsTree.Tree.metadata, FsTree.Tree.metadata]
  cases h : os.fs.canonicalize p with
  | none => rw [Option.getD_none, h]
  | some c => rw [Option.getD_some, FsTree.Tree.canonicalize_idem h]

/-- What does not exist does not resolve. -/
theorem canonical_of_missing {p : PathBuf} (h : os.exists p = false) : os.canonical p = p := by
  cases hc : os.fs.canonicalize p with
  | none => rw [canonical, hc, Option.getD_none]
  | some c =>
      rw [Os.exists, FsTree.Tree.metadata, hc, Option.bind_some,
        (FsTree.Tree.canonicalize_isReal hc).lookup] at h
      cases h

/-- `st_dev`, 0 when `metadata` fails. -/
def dev_id (p : PathBuf) : Nat := ((os.fs.metadata p).map (·.dev)).getD 0

/-- Open a directory with `O_DIRECTORY | O_NOFOLLOW`. -/
def open_dir_safe (p : PathBuf) : Option DirFd := (os.fs.open_dir p).map fun n => ⟨p, n⟩

/-- `fs::metadata(p).map(|m| m.len())`. -/
def len (p : PathBuf) : Option Nat :=
  (os.fs.metadata p).map fun n =>
    match n.kind with
    | .file size => size
    | _ => os.st_size n.ino

/-- Find the deepest existing ancestor directory of a path. -/
def nearest_existing_ancestor (p : PathBuf) : Option PathBuf := p.inits.reverse.find? os.is_dir

theorem root_is_dir : (⟨1, 1, .dir, true, true⟩ : FsTree.Node OsString).kind = .dir := rfl

/-- A file system that holds its root directory only. -/
def bareTree : FsTree.Tree OsString :=
  ⟨⟨1, 1, .dir, true, true⟩, root_is_dir, [], by decide, by decide, by decide⟩

/-- Every call succeeds; no process is known. -/
def calm (fs : FsTree.Tree OsString) : Os where
  fs
  handle := fun i => some (0, List.replicate i 0)
  handle_inj := by
    intro i j k hi hj
    rw [← hj, Option.some.injEq, Prod.mk.injEq] at hi
    exact List.replicate_left_injective (a := (0 : UInt8)) hi.2
  mark_ok := fun _ => true
  unmark_ok := fun _ => true
  create_ok := fun _ => true
  watch_ok := fun _ => true
  dup_ok := true
  inotify_ok := true
  st_size := fun _ => 0
  now := 0
  proc_info := fun _ _ => ⟨"", "", "", 0, 0⟩
  in_tree := fun _ _ => false
  chain := fun _ => []

end Os

/-- A path as `display()` shows it. -/
def PathBuf.display (p : PathBuf) : Str := Text.fromUtf8Lossy p.toBytes

/-! ## The kernel's marks -/

/-- A `fanotify_mark` call that succeeded. -/
inductive MarkOp where
  | add (fan_fd : Nat) (dir : DirFd) (mask : Mask)
  | remove (fan_fd : Nat) (dir : DirFd)
  deriving DecidableEq, Repr

structure Kernel where
  /-- The mark calls, oldest first. -/
  marks : List MarkOp
  /-- The group `fanotify_init` returns next. -/
  next_fd : Nat

namespace Kernel

def initial : Kernel := ⟨[], 0⟩

/-- The mask an inode's mark carries in a group: additions or-ed, a removal drops it. -/
def mask (k : Kernel) (fan_fd ino : Nat) : Mask :=
  k.marks.foldl (fun m op =>
    match op with
    | .add g d b => if g = fan_fd ∧ d.node.ino = ino then m ||| b else m
    | .remove g d => if g = fan_fd ∧ d.node.ino = ino then 0 else m) 0

/-- The directories of a request that can be marked. -/
def markable (os : Os) (dirs : List DirFd) : List DirFd := dirs.filter fun d => os.mark_ok d.node.ino

/-- `factory.mark(fan_fd, dirs, FAN_MARK_ADD, mask)`: each directory on its own, and `FS_ERROR`
stripped, which only file system marks carry. -/
def mark (os : Os) (k : Kernel) (fan_fd : Nat) (dirs : List DirFd) (mask : Mask) : Kernel :=
  { k with
    marks := k.marks ++
      (markable os dirs).map fun d => .add fan_fd d (mask &&& ~~~FAN_FS_ERROR) }

/-- Remove the inode mark on `dir` from the group. -/
def unmark_directory_at (os : Os) (k : Kernel) (fan_fd : Nat) (dir : DirFd) : Kernel :=
  if os.unmark_ok dir.node.ino then { k with marks := k.marks ++ [.remove fan_fd dir] } else k

/-- Mark a single directory; `none` when the call fails. -/
def mark_directory_at (os : Os) (k : Kernel) (fan_fd : Nat) (dir : DirFd) (mask : Mask) :
    Option Kernel :=
  if os.mark_ok dir.node.ino then some (k.mark os fan_fd [dir] mask) else none

/-- Open a directory and mark it; the failure is ignored by every caller. -/
def mark_directory (os : Os) (k : Kernel) (fan_fd : Nat) (mask : Mask) (path : PathBuf) : Kernel :=
  match os.open_dir_safe path with
  | none => k
  | some dir => (k.mark_directory_at os fan_fd dir mask).getD k

/-- `factory.create_group_and_mark`: the new group, with one directory marked. -/
def create_group_and_mark (os : Os) (k : Kernel) (dir : DirFd) (mask : Mask) :
    Option (Nat × Kernel) :=
  if os.create_ok dir.node.ino then
    some (k.next_fd,
      { marks := k.marks ++ [.add k.next_fd dir (mask &&& ~~~FAN_FS_ERROR)]
        next_fd := k.next_fd + 1 })
  else none

end Kernel

/-! ## The directory handle cache -/

/-- `DirCache`, while nothing is evicted. -/
abbrev DirCache := HashMap HandleKey PathBuf

/-- Add a directory's handle to the cache, by path. -/
def cache_dir_handle (os : Os) (cache : DirCache) (path : PathBuf) : DirCache :=
  match (os.fs.lstat path).bind fun n => os.handle n.ino with
  | none => cache
  | some key => cache.insert key path

/-- Add the handle of an open directory to the cache. -/
def cache_handle_from_fd (os : Os) (cache : DirCache) (dir : DirFd) (path : PathBuf) : DirCache :=
  match os.handle dir.node.ino with
  | none => cache
  | some key => cache.insert key path

/-! ## The marking walk -/

/-- A request carries the group and at most this many directories. -/
def MAX_DIRS_PER_MARK : Nat := 63

/-- The variables of `mark_recursive_with_depth`. -/
structure Walk where
  kernel : Kernel
  dir_cache : DirCache
  /-- BFS queue: (path, depth). -/
  queue : List (PathBuf × Nat)
  /-- Directories waiting to be marked. -/
  pending : List DirFd
  pending_depth : Nat
  discovered : List PathBuf

namespace Walk

section
variable (os : Os) (fan_fd : Nat) (mask : Mask) (max_depth : Option Nat) (caching : Bool)

/-- Mark every queued directory in a single factory round-trip. -/
def flush_pending_marks (w : Walk) : Walk :=
  { w with kernel := w.kernel.mark os fan_fd w.pending mask, pending := [] }

/-- Reaching a new depth sends the marks of the previous one. -/
def level (depth : Nat) (w : Walk) : Walk :=
  if depth ≠ w.pending_depth then
    { w.flush_pending_marks os fan_fd mask with pending_depth := depth }
  else w

/-- The directory is open: cache its handle. -/
def seed (current : PathBuf) (dir : DirFd) (w : Walk) : Walk :=
  if caching then { w with dir_cache := cache_handle_from_fd os w.dir_cache dir current } else w

/-- Queue its mark; a full batch is sent. -/
def collect (current : PathBuf) (dir : DirFd) (w : Walk) : Walk :=
  let queued : Walk :=
    { w with pending := w.pending ++ [dir], discovered := w.discovered ++ [current] }
  if MAX_DIRS_PER_MARK ≤ queued.pending.length then queued.flush_pending_marks os fan_fd mask
  else queued

/-- The root of the walk has been marked by the caller. -/
def enter (current : PathBuf) (depth : Nat) (dir : DirFd) (w : Walk) : Walk :=
  if depth = 0 then w.seed os caching current dir
  else (w.seed os caching current dir).collect os fan_fd mask current dir

/-- The subdirectories of a directory, links skipped. -/
def subdirs (current : PathBuf) : List PathBuf :=
  ((os.fs.read_dir current).getD []).filterMap fun e =>
    if e.2.kind = .dir then some (current.join e.1) else none

/-- One turn of the loop. -/
def visit (current : PathBuf) (depth : Nat) (w : Walk) : Walk :=
  let w := w.level os fan_fd mask depth
  if max_depth.any (· < depth) then w
  else
    match os.open_dir_safe current with
    | none => w
    | some dir =>
        let w := w.enter os fan_fd mask caching current depth dir
        { w with queue := w.queue ++ (subdirs os current).map fun p => (p, depth + 1) }

/-- The loop, for at most `n` turns. -/
def run : Nat → Walk → Walk
  | 0, w => w
  | n + 1, w =>
      match w.queue with
      | [] => w
      | (current, depth) :: rest =>
          run n (visit os fan_fd mask max_depth caching current depth { w with queue := rest })

end

end Walk

/-- Traverse and mark all subdirectories of `dir` breadth first.  Every directory of the tree is
queued at most once, so there are at most as many turns as objects. -/
def mark_recursive_with_depth (os : Os) (k : Kernel) (cache : DirCache) (fan_fd : Nat) (mask : Mask)
    (dir : PathBuf) (max_depth : Option Nat) (caching : Bool) : Walk :=
  ((Walk.run os fan_fd (mask &&& ~~~FAN_FS_ERROR) max_depth caching (os.fs.nodes.length + 1)
      ⟨k, cache, [(dir, 0)], [], 0, []⟩).flush_pending_marks os fan_fd
    (mask &&& ~~~FAN_FS_ERROR))

/-! ## The daemon -/

/-- One fanotify group per file system. -/
structure FsGroup where
  dev_id : Nat
  fan_fd : Nat
  ref_count : Nat
  deriving DecidableEq, Repr

/-- Fanotify state: per-filesystem groups and directory handle cache. -/
structure FanotifyState where
  groups : SlotMap FsGroup
  path_to_group : HashMap PathBuf Nat
  dir_cache : DirCache
  shared_dir_cache : Bool
  factory : Bool

/-- `inotify::WatchMask` and `inotify::EventMask`. -/
abbrev WatchMask := BitVec 32

def IN_MOVED_TO : WatchMask := 0x80
def IN_CREATE : WatchMask := 0x100
def IN_DELETE_SELF : WatchMask := 0x400
def IN_MOVE_SELF : WatchMask := 0x800
def IN_ISDIR : WatchMask := 0x40000000

/-- Inotify state.  A watch descriptor is the inode it watches. -/
structure InotifyState where
  inotify : Bool
  watches : List (PathBuf × Nat)
  pending_paths : List (PathBuf × PathEntry)
  /-- Target to the ancestor marked for it, and the group. -/
  temp_parent_marks : HashMap PathBuf (PathBuf × Nat)
  /-- The `inotify_add_watch` calls that succeeded, oldest first. -/
  added : List (Nat × WatchMask)
  /-- The directories `watch_recursive` has entered, oldest first (a history variable). -/
  entered : List PathBuf

/-- `MetricsRegistry`: the gauges are silent when metrics are off, the loss counters are not. -/
structure MetricsRegistry where
  enabled : Bool
  monitored_paths : Nat
  reader_groups : Nat
  pending_paths : Nat
  events_unresolved_rename : Nat
  unparsed_info_records : Nat
  deriving DecidableEq, Repr

namespace MetricsRegistry

def new (enabled : Bool) : MetricsRegistry := ⟨enabled, 0, 0, 0, 0, 0⟩

def set_monitored_paths (r : MetricsRegistry) (n : Nat) : MetricsRegistry :=
  if r.enabled then { r with monitored_paths := n } else r

def set_reader_groups (r : MetricsRegistry) (n : Nat) : MetricsRegistry :=
  if r.enabled then { r with reader_groups := n } else r

def set_pending_paths (r : MetricsRegistry) (n : Nat) : MetricsRegistry :=
  if r.enabled then { r with pending_paths := n } else r

def inc_events_unresolved_rename (r : MetricsRegistry) (n : Nat) : MetricsRegistry :=
  { r with events_unresolved_rename := r.events_unresolved_rename + n }

def inc_unparsed_info_records (r : MetricsRegistry) (n : Nat) : MetricsRegistry :=
  { r with unparsed_info_records := r.unparsed_info_records + n }

/-- The two loss counters. -/
def losses (r : MetricsRegistry) : Nat × Nat := (r.events_unresolved_rename, r.unparsed_info_records)

@[simp] theorem losses_set_monitored_paths (r : MetricsRegistry) (n : Nat) :
    (r.set_monitored_paths n).losses = r.losses := by
  unfold set_monitored_paths losses
  split <;> rfl

@[simp] theorem losses_set_reader_groups (r : MetricsRegistry) (n : Nat) :
    (r.set_reader_groups n).losses = r.losses := by
  unfold set_reader_groups losses
  split <;> rfl

@[simp] theorem losses_set_pending_paths (r : MetricsRegistry) (n : Nat) :
    (r.set_pending_paths n).losses = r.losses := by
  unfold set_pending_paths losses
  split <;> rfl

end MetricsRegistry

/-- `LruCache<PathBuf, u64>`, most recently used first. -/
structure LruCache where
  cap : Nat
  entries : List (PathBuf × Nat)
  deriving DecidableEq, Repr

namespace LruCache

def peek (c : LruCache) (p : PathBuf) : Option Nat := (c.entries.find? fun e => e.1 = p).map (·.2)

def without (c : LruCache) (p : PathBuf) : List (PathBuf × Nat) := c.entries.filter fun e => e.1 ≠ p

def put (c : LruCache) (p : PathBuf) (n : Nat) : LruCache :=
  { c with entries := ((p, n) :: c.without p).take c.cap }

def pop (c : LruCache) (p : PathBuf) : Option Nat × LruCache :=
  (c.peek p, { c with entries := c.without p })

def get (c : LruCache) (p : PathBuf) : Option Nat × LruCache :=
  match c.peek p with
  | none => (none, c)
  | some n => (some n, { c with entries := (p, n) :: c.without p })

end LruCache

/-- One call of `on_new_subdirectory` that got past its guards (a history variable). -/
structure Touch where
  /-- Canonical paths of the directory and of those the two walks went into. -/
  dirs : List PathBuf
  /-- Canonical paths of the recursive entries at the time of the call. -/
  roots : List PathBuf
  deriving DecidableEq, Repr

structure Monitor where
  paths : List PathBuf
  canonical_paths : List PathBuf
  /-- Every (path, options) pair, across cmd groups. -/
  monitored_entries : List (PathBuf × PathOptions)
  log_dir : Option PathBuf
  fanotify : FanotifyState
  inotify_state : InotifyState
  file_size_cache : LruCache
  /-- Set by `spawn_tasks`. -/
  event_tx : Bool
  daemon_pid : Nat
  metrics : MetricsRegistry
  kernel : Kernel
  /-- The groups reader tasks were spawned for. -/
  readers : List Nat
  /-- How often the queue-overflow warning went to standard error. -/
  overflow_warnings : Nat
  touched : List Touch
  /-- A group was indexed by a key that is no longer in the map. -/
  panicked : Bool

/-- A daemon that was started without entries. -/
def Monitor.idle : Monitor where
  paths := []
  canonical_paths := []
  monitored_entries := []
  log_dir := none
  fanotify := ⟨.empty, ∅, ∅, true, true⟩
  inotify_state := ⟨true, [], [], ∅, [], []⟩
  file_size_cache := ⟨10000, []⟩
  event_tx := true
  daemon_pid := 1
  metrics := .new false
  kernel := .initial
  readers := []
  overflow_warnings := 0
  touched := []
  panicked := false

end Fsmon
