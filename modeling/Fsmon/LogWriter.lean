/-
# `Fsmon.LogWriter` — the daemon's log writer and the directory it writes to

`common/monitor/file_writer.rs` over a model of the log directory: names bound
to inodes, an inode's lines, its link count.  A `BufWriter` holds an inode and
the lines not yet handed to the kernel.

What the operating system answers is in the labels: `Io` for one attempt to
write a line, a flush outcome for each handle.  The functions are deterministic
once these are given, so a statement about all labels covers every pattern of
failing opens, failing writes, partial flushes and evictions.

    get_or_open         cached handle, or evict one and open
    writeln             one line through a handle
    write_event         retry the buffer if due, then write or buffer
    flush_disk_buf      retry every buffered event once
    flush_and_sync_dirty_logs   the one-second tick, with its nlink check
    flush_all           the last flush

A failing `writeln!` is taken to leave no part of its line behind.  The writer
keeps a history variable, `accepted`: the lines for which `writeln!` returned
`Ok`, in order.
-/
import Fsmon.Event
import Fsmon.Lib.HashMap
import Fsmon.Lib.Run
import Mathlib.Logic.Function.Basic

namespace Fsmon

/-! ## The log directory -/

/-- A log file's name below `log_dir`. -/
abbrev LogPath := Str

/-- The log file of a cmd group; `/` is not safe in a file name. -/
def cmd_to_log_name (cmd : String) : LogPath :=
  (cmd.toList.map fun c => if c = '/' then '_' else c) ++ "_log.jsonl".toList

/-- Names bound to inodes, and what the inodes hold. -/
structure LogDir where
  inode : LogPath → Option Nat
  content : Nat → List Str
  nlink : Nat → Nat
  /-- The next inode number to hand out. -/
  next : Nat

namespace LogDir

def empty : LogDir := ⟨fun _ => none, fun _ => [], fun _ => 0, 0⟩

/-- A new inode under the name `p`. -/
def create (d : LogDir) (p : LogPath) : LogDir where
  inode := Function.update d.inode p (some d.next)
  content := Function.update d.content d.next []
  nlink := Function.update d.nlink d.next 1
  next := d.next + 1

/-- `open(O_CREAT | O_APPEND)` on a name that can be opened. -/
def openAppend (d : LogDir) (p : LogPath) : Nat × LogDir :=
  match d.inode p with
  | some i => (i, d)
  | none => (d.next, d.create p)

/-- Append lines to an inode, bound to a name or not. -/
def append (d : LogDir) (i : Nat) (ls : List Str) : LogDir :=
  { d with content := Function.update d.content i (d.content i ++ ls) }

/-- The lines of the file now bound to `p`. -/
def lines (d : LogDir) (p : LogPath) : List Str :=
  match d.inode p with
  | some i => d.content i
  | none => []

end LogDir

/-! ## The writer's state -/

/-- `BufWriter<File>`: the open file and the lines it has not been given yet. -/
structure BufWriter where
  inode : Nat
  buffered : List Str
  deriving DecidableEq, Repr

/-- How far a flush gets: all of it, or it fails after some lines. -/
inductive Flush where
  | done
  | failedAfter (n : Nat)
  deriving DecidableEq, Repr

/-- The lines a flush hands to the kernel. -/
def Flush.out : Flush → List Str → List Str
  | .done, ls => ls
  | .failedAfter n, ls => ls.take n

/-- The lines a flush leaves in the buffer. -/
def Flush.rest : Flush → List Str → List Str
  | .done, _ => []
  | .failedAfter n, ls => ls.drop n

/-- The outcome of one `writeln!`: accepted, with `n` of the buffered lines (the new one last)
going on to the kernel, or failed after `n` lines. -/
inductive Writeln where
  | accepted (n : Nat)
  | failed (n : Nat)
  deriving DecidableEq, Repr

/-- What the operating system answers during one attempt to write a line. -/
structure Io where
  /-- `open_log_file` succeeds. -/
  open_ok : Bool
  write : Writeln
  /-- The key `handles.keys().next()` yields, if it is one. -/
  victim : LogPath
  /-- The flush when the evicted handle is dropped. -/
  evict : Flush
  /-- The flush when the log's own handle is dropped after a failed write. -/
  drop : Flush
  deriving DecidableEq, Repr

/-- Everything succeeds and nothing leaves the buffer early. -/
def Io.calm : Io := ⟨true, .accepted 0, [], .done, .done⟩

/-- The open fails. -/
def Io.noOpen : Io := { Io.calm with open_ok := false }

/-- Maximum number of open file handles to keep cached. -/
def MAX_OPEN_HANDLES : Nat := 64

/-- Events `disk_buf` holds at most. -/
def DISK_BUF_CAP : Nat := 10000

/-- Seconds between retries. -/
def RETRY_SECS : Nat := 10

/-- Which call failed. -/
inductive IoError where
  | openLog
  | writeLine
  deriving DecidableEq, Repr

structure FileLogWriter where
  /-- The directory behind the field `log_dir`. -/
  log_dir : LogDir
  disk_buf : List (FileEvent × String)
  disk_healthy : Bool
  /-- In seconds of the monotonic clock. -/
  last_disk_check : Nat
  dirty_logs : List LogPath
  handles : HashMap LogPath BufWriter
  /-- The gauge `disk_buffer_events`. -/
  disk_buffer_events : Nat
  /-- The lines `writeln!` returned `Ok` for, each with its log. -/
  accepted : List (LogPath × Str)

namespace FileLogWriter

/-- `FileLogWriter::new` at time `now`. -/
def new (log_dir : LogDir) (now : Nat) : FileLogWriter where
  log_dir := log_dir
  disk_buf := []
  disk_healthy := true
  last_disk_check := now
  dirty_logs := []
  handles := ∅
  disk_buffer_events := 0
  accepted := []

/-! ## Handles -/

/-- Hand lines to the kernel through the handle of `p`, leaving `rest` in its buffer. -/
def put (w : FileLogWriter) (p : LogPath) (h : BufWriter) (out rest : List Str) : FileLogWriter :=
  { w with
    log_dir := w.log_dir.append h.inode out
    handles := w.handles.insert p { h with buffered := rest } }

/-- `handles.remove(p)`: dropping a `BufWriter` flushes it, and ignores a failure. -/
def drop_handle (w : FileLogWriter) (p : LogPath) (f : Flush) : FileLogWriter :=
  match w.handles.lookup p with
  | none => w
  | some h =>
      { w with
        log_dir := w.log_dir.append h.inode (f.out h.buffered)
        handles := w.handles.erase p }

/-- The handle to evict at capacity: `handles.keys().next()`, whichever key that is. -/
def evict_path (w : FileLogWriter) (victim : LogPath) : Option LogPath :=
  if w.handles.contains_key victim then some victim else w.handles.keys.head?

/-- Evict a handle if the cache is full. -/
def evict (w : FileLogWriter) (io : Io) : FileLogWriter :=
  if w.handles.len ≥ MAX_OPEN_HANDLES then
    match w.evict_path io.victim with
    | some q => w.drop_handle q io.evict
    | none => w
  else w

/-- Get or open a `BufWriter` for the given log path; no handle if the open fails. -/
def get_or_open (w : FileLogWriter) (io : Io) (p : LogPath) : Option BufWriter × FileLogWriter :=
  match w.handles.lookup p with
  | some h => (some h, w)
  | none =>
      let w := w.evict io
      if io.open_ok then
        let (i, d) := w.log_dir.openAppend p
        let h : BufWriter := ⟨i, []⟩
        (some h, { w with log_dir := d, handles := w.handles.insert p h })
      else (none, w)

/-- The log's handle is cached, or it can be opened. -/
def opens (w : FileLogWriter) (io : Io) (p : LogPath) : Bool :=
  w.handles.contains_key p || io.open_ok

/-- `get_or_open` returns a handle exactly when one is cached or the open succeeds. -/
theorem get_or_open_isSome (w : FileLogWriter) (io : Io) (p : LogPath) :
    (w.get_or_open io p).1.isSome = w.opens io p := by
  rw [get_or_open, opens, HashMap.contains_key]
  cases w.handles.lookup p with
  | some h => rfl
  | none => cases ho : io.open_ok <;> rfl

/-- The line is accepted: the buffer takes it, and `n` lines go on to the kernel. -/
def accept (w : FileLogWriter) (p : LogPath) (h : BufWriter) (line : Str) (n : Nat) :
    FileLogWriter :=
  { w.put p h ((h.buffered ++ [line]).take n) ((h.buffered ++ [line]).drop n) with
    accepted := w.accepted ++ [(p, line)] }

/-- The write fails after `n` buffered lines went on; the new line is nowhere. -/
def refuse (w : FileLogWriter) (p : LogPath) (h : BufWriter) (n : Nat) : FileLogWriter :=
  w.put p h (h.buffered.take n) (h.buffered.drop n)

/-- `writeln!(writer, "{}", line)` through the cached handle `h` of `p`. -/
def writeln (w : FileLogWriter) (o : Writeln) (p : LogPath) (h : BufWriter) (line : Str) :
    Bool × FileLogWriter :=
  match o with
  | .accepted n => (true, w.accept p h line n)
  | .failed n => (false, w.refuse p h n)

/-! ## Writing -/

section
variable (jsonl_string : FileEvent → Str)

/-- One round of the retry loop: an event taken from the front of the buffer is written, or
pushed to `remaining`. -/
def retry_one (w : FileLogWriter) (io : Io) (q : FileEvent × String) : Bool × FileLogWriter :=
  let log_path := cmd_to_log_name q.2
  let line := jsonl_string q.1
  match w.get_or_open io log_path with
  | (some h, w) =>
      match w.writeln io.write log_path h line with
      | (true, w) => (true, w)
      | (false, w) => (false, w.drop_handle log_path io.drop)
  | (none, w) => (false, w)

/-- The retry loop over the buffered events; attempt `i` is answered by `ios i`. -/
def retry_loop : FileLogWriter → (Nat → Io) → List (FileEvent × String) →
    List (FileEvent × String) → List (FileEvent × String) × FileLogWriter
  | w, _, remaining, [] => (remaining, w)
  | w, ios, remaining, q :: rest =>
      let (ok, w) := w.retry_one jsonl_string (ios 0) q
      retry_loop w (fun i => ios (i + 1)) (if ok then remaining else remaining ++ [q]) rest

/-- Try to flush buffered events to disk. -/
def flush_disk_buf (w : FileLogWriter) (now : Nat) (ios : Nat → Io) : FileLogWriter :=
  if w.disk_buf = [] then { w with disk_healthy := true }
  else
    let (remaining, w) := retry_loop jsonl_string w ios [] w.disk_buf
    { w with
      disk_buf := remaining
      disk_healthy := remaining.isEmpty
      last_disk_check := now
      disk_buffer_events := remaining.length }

/-- A retry of the buffer is due before the next event. -/
def retry_due (w : FileLogWriter) (now : Nat) : Bool :=
  !w.disk_healthy && decide (now - w.last_disk_check ≥ RETRY_SECS)

/-- The buffer retry at the start of `write_event`. -/
def retry (w : FileLogWriter) (now : Nat) (ios : Nat → Io) : FileLogWriter :=
  if w.retry_due now then w.flush_disk_buf jsonl_string now ios else w

/-- Write an event to its log, after the retry. -/
def write_line (w : FileLogWriter) (now : Nat) (io : Io) (event : FileEvent) (cmd_name : String) :
    Except IoError Unit × FileLogWriter :=
  let log_path := cmd_to_log_name cmd_name
  let line := jsonl_string event
  match w.get_or_open io log_path with
  | (some h, w) =>
      match w.writeln io.write log_path h line with
      | (true, w) =>
          (.ok (), { w with dirty_logs := w.dirty_logs.insert log_path, disk_healthy := true })
      -- the `?` of `writeln!(..)?`
      | (false, w) => (.error .writeLine, w)
  | (none, w) =>
      let disk_buf :=
        if w.disk_buf.length < DISK_BUF_CAP then w.disk_buf ++ [(event, cmd_name)] else w.disk_buf
      (.error .openLog,
        { w.drop_handle log_path io.drop with
          disk_healthy := false
          last_disk_check := now
          disk_buf := disk_buf
          disk_buffer_events := disk_buf.length })

/-- Write an event to the appropriate JSONL log file. -/
def write_event (w : FileLogWriter) (now : Nat) (ios : Nat → Io) (io : Io) (event : FileEvent)
    (cmd_name : String) : Except IoError Unit × FileLogWriter :=
  (w.retry jsonl_string now ios).write_line jsonl_string now io event cmd_name

end

/-! ## Flushing -/

/-- The tick on one dirty log: a handle to an unlinked file is dropped, any other is flushed.
A log without a handle is only synced. -/
def flush_log (w : FileLogWriter) (f : Flush) (p : LogPath) : FileLogWriter :=
  match w.handles.lookup p with
  | none => w
  | some h =>
      if w.log_dir.nlink h.inode = 0 then w.drop_handle p f
      else w.put p h (f.out h.buffered) (f.rest h.buffered)

/-- Flush + sync all dirty log files. -/
def flush_and_sync_dirty_logs (w : FileLogWriter) (f : LogPath → Flush) : FileLogWriter :=
  w.dirty_logs.foldl (fun w p => w.flush_log (f p) p) { w with dirty_logs := [] }

/-- Flush one handle, whatever file it is open on. -/
def flush_handle (w : FileLogWriter) (f : Flush) (p : LogPath) : FileLogWriter :=
  match w.handles.lookup p with
  | none => w
  | some h => w.put p h (f.out h.buffered) (f.rest h.buffered)

/-- Flush all open `BufWriter`s to OS buffers. -/
def flush_all (w : FileLogWriter) (f : LogPath → Flush) : FileLogWriter :=
  w.handles.keys.foldl (fun w p => w.flush_handle (f p) p) w

/-- The end of `run`, when the channel is closed and every flush succeeds. -/
def finish (w : FileLogWriter) : FileLogWriter :=
  (w.flush_and_sync_dirty_logs fun _ => .done).flush_all fun _ => .done

/-! ## Runs -/

/-- One call on the writer, with what the operating system answers during it. -/
inductive Op where
  | write (now : Nat) (ios : Nat → Io) (io : Io) (event : FileEvent) (cmd_name : String)
  | retry_buf (now : Nat) (ios : Nat → Io)
  | tick (f : LogPath → Flush)
  | flush (f : LogPath → Flush)

/-- The event a call hands to the writer. -/
def Op.handed : Op → List (FileEvent × String)
  | .write _ _ _ event cmd_name => [(event, cmd_name)]
  | _ => []

/-- The call. -/
def apply (jsonl_string : FileEvent → Str) (w : FileLogWriter) : Op → FileLogWriter
  | .write now ios io event cmd_name =>
      (w.write_event jsonl_string now ios io event cmd_name).2
  | .retry_buf now ios => w.flush_disk_buf jsonl_string now ios
  | .tick f => w.flush_and_sync_dirty_logs f
  | .flush f => w.flush_all f

/-! ## What one attempt can do -/

/-- A retry is accepted, fails in the write, or fails in the open. -/
theorem retry_one_cases {jsonl_string : FileEvent → Str} {w w' : FileLogWriter} {io : Io}
    {q : FileEvent × String} {ok : Bool} (hr : w.retry_one jsonl_string io q = (ok, w')) :
    (∃ h w₁ n, w.get_or_open io (cmd_to_log_name q.2) = (some h, w₁) ∧ io.write = .accepted n ∧
      ok = true ∧ w' = w₁.accept (cmd_to_log_name q.2) h (jsonl_string q.1) n) ∨
    (∃ h w₁ n, w.get_or_open io (cmd_to_log_name q.2) = (some h, w₁) ∧ io.write = .failed n ∧
      ok = false ∧ w' = (w₁.refuse (cmd_to_log_name q.2) h n).drop_handle (cmd_to_log_name q.2)
        io.drop) ∨
    (w.get_or_open io (cmd_to_log_name q.2) = (none, w') ∧ ok = false) := by
  simp only [retry_one] at hr
  rcases hg : w.get_or_open io (cmd_to_log_name q.2) with ⟨_ | h, w₁⟩
  · rw [hg] at hr
    cases hr
    exact .inr (.inr ⟨rfl, rfl⟩)
  · cases hw : io.write with
    | accepted n =>
        simp only [hg, hw, writeln] at hr
        cases hr
        exact .inl ⟨h, w₁, n, rfl, rfl, rfl, rfl⟩
    | failed n =>
        simp only [hg, hw, writeln] at hr
        cases hr
        exact .inr (.inl ⟨h, w₁, n, rfl, rfl, rfl, rfl⟩)

/-- A direct write is accepted, fails in the write and is given up, or fails in the open and is
buffered. -/
theorem write_line_cases (jsonl_string : FileEvent → Str) (w : FileLogWriter) (now : Nat) (io : Io)
    (event : FileEvent) (cmd_name : String) :
    (∃ h w₁ n, w.get_or_open io (cmd_to_log_name cmd_name) = (some h, w₁) ∧
      io.write = .accepted n ∧
      w.write_line jsonl_string now io event cmd_name = (.ok (),
        { w₁.accept (cmd_to_log_name cmd_name) h (jsonl_string event) n with
          dirty_logs := w₁.dirty_logs.insert (cmd_to_log_name cmd_name)
          disk_healthy := true })) ∨
    (∃ h w₁ n, w.get_or_open io (cmd_to_log_name cmd_name) = (some h, w₁) ∧
      io.write = .failed n ∧
      w.write_line jsonl_string now io event cmd_name
        = (.error .writeLine, w₁.refuse (cmd_to_log_name cmd_name) h n)) ∨
    (∃ w₁ buf, w.get_or_open io (cmd_to_log_name cmd_name) = (none, w₁) ∧
      buf = (if w₁.disk_buf.length < DISK_BUF_CAP then w₁.disk_buf ++ [(event, cmd_name)]
        else w₁.disk_buf) ∧
      w.write_line jsonl_string now io event cmd_name = (.error .openLog,
        { w₁.drop_handle (cmd_to_log_name cmd_name) io.drop with
          disk_healthy := false
          last_disk_check := now
          disk_buf := buf
          disk_buffer_events := buf.length })) := by
  rcases hg : w.get_or_open io (cmd_to_log_name cmd_name) with ⟨_ | h, w₁⟩
  · exact .inr (.inr ⟨w₁, _, rfl, rfl, by simp only [write_line, hg]⟩)
  · cases hw : io.write with
    | accepted n => exact .inl ⟨h, w₁, n, rfl, rfl, by simp only [write_line, hg, hw, writeln]; rfl⟩
    | failed n =>
        exact .inr (.inl ⟨h, w₁, n, rfl, rfl, by simp only [write_line, hg, hw, writeln]⟩)

/-! ## What the handle cache leaves alone -/

/-- Everything but the directory and the handles is as before. -/
structure SameBooks (w w' : FileLogWriter) : Prop where
  disk_buf : w'.disk_buf = w.disk_buf
  disk_healthy : w'.disk_healthy = w.disk_healthy
  last_disk_check : w'.last_disk_check = w.last_disk_check
  dirty_logs : w'.dirty_logs = w.dirty_logs
  disk_buffer_events : w'.disk_buffer_events = w.disk_buffer_events
  accepted : w'.accepted = w.accepted

namespace SameBooks

theorem refl (w : FileLogWriter) : SameBooks w w := ⟨rfl, rfl, rfl, rfl, rfl, rfl⟩

theorem trans {a b c : FileLogWriter} (h₁ : SameBooks a b) (h₂ : SameBooks b c) :
    SameBooks a c where
  disk_buf := h₂.disk_buf.trans h₁.disk_buf
  disk_healthy := h₂.disk_healthy.trans h₁.disk_healthy
  last_disk_check := h₂.last_disk_check.trans h₁.last_disk_check
  dirty_logs := h₂.dirty_logs.trans h₁.dirty_logs
  disk_buffer_events := h₂.disk_buffer_events.trans h₁.disk_buffer_events
  accepted := h₂.accepted.trans h₁.accepted

end SameBooks

theorem put_sameBooks (w : FileLogWriter) (p : LogPath) (h : BufWriter) (out rest : List Str) :
    SameBooks w (w.put p h out rest) := ⟨rfl, rfl, rfl, rfl, rfl, rfl⟩

theorem drop_handle_sameBooks (w : FileLogWriter) (p : LogPath) (f : Flush) :
    SameBooks w (w.drop_handle p f) := by
  rw [drop_handle]
  cases w.handles.lookup p with
  | none => exact .refl w
  | some h => exact ⟨rfl, rfl, rfl, rfl, rfl, rfl⟩

theorem evict_sameBooks (w : FileLogWriter) (io : Io) : SameBooks w (w.evict io) := by
  rw [evict]
  split
  · cases w.evict_path io.victim with
    | none => exact .refl w
    | some q => exact drop_handle_sameBooks w q io.evict
  · exact .refl w

theorem get_or_open_sameBooks {w w₁ : FileLogWriter} {io : Io} {p : LogPath}
    {h? : Option BufWriter} (hg : w.get_or_open io p = (h?, w₁)) : SameBooks w w₁ := by
  rw [get_or_open] at hg
  cases hl : w.handles.lookup p with
  | some h =>
      simp only [hl] at hg
      cases hg
      exact .refl w
  | none =>
      have hev := evict_sameBooks w io
      by_cases ho : io.open_ok = true
      · simp only [hl, ho, if_true] at hg
        cases hg
        exact hev.trans ⟨rfl, rfl, rfl, rfl, rfl, rfl⟩
      · simp only [hl, ho] at hg
        cases hg
        exact hev

theorem flush_handle_sameBooks (w : FileLogWriter) (f : Flush) (p : LogPath) :
    SameBooks w (w.flush_handle f p) := by
  rw [flush_handle]
  cases w.handles.lookup p with
  | none => exact .refl w
  | some h => exact put_sameBooks ..

theorem flush_log_sameBooks (w : FileLogWriter) (f : Flush) (p : LogPath) :
    SameBooks w (w.flush_log f p) := by
  rw [flush_log]
  cases w.handles.lookup p with
  | none => exact .refl w
  | some h =>
      simp only
      split
      · exact drop_handle_sameBooks w p f
      · exact put_sameBooks ..

/-- A loop of such operations is one. -/
theorem foldl_sameBooks {g : FileLogWriter → LogPath → FileLogWriter}
    (hg : ∀ w p, SameBooks w (g w p)) : ∀ (ps : List LogPath) (w : FileLogWriter),
    SameBooks w (ps.foldl g w) := Run.rel_foldl SameBooks.refl SameBooks.trans hg

theorem flush_all_sameBooks (w : FileLogWriter) (f : LogPath → Flush) :
    SameBooks w (w.flush_all f) :=
  foldl_sameBooks (fun w p => flush_handle_sameBooks w (f p) p) _ w

/-- The tick drains the dirty logs and changes nothing else outside the cache. -/
theorem flush_and_sync_sameBooks (w : FileLogWriter) (f : LogPath → Flush) :
    SameBooks { w with dirty_logs := [] } (w.flush_and_sync_dirty_logs f) :=
  foldl_sameBooks (fun w p => flush_log_sameBooks w (f p) p) _ _

/-! ## Two records -/

/-- A record at the given second after the epoch. -/
def sampleEvent (second : Nat) : FileEvent where
  time := 1000000000 * second
  event_type := .create
  path := [[0x61]]
  pid := 1
  comm := "c"
  cmd := "c"
  user := "u"
  file_size := 0
  ppid := 0
  tgid := 0
  chain := []
  fs_error := none

/-- Its line, for a second below ten. -/
def sampleLine (second : Nat) : Str :=
  "\x7b\"time\":\"1970-01-01T00:00:0".toList ++ (toString second).toList ++
    "Z\",\"event_type\":\"CREATE\",\"path\":\"/a\",\"pid\":1,\"comm\":\"c\",\"cmd\":\"c\",".toList ++
    "\"user\":\"u\",\"file_size\":0,\"ppid\":0,\"tgid\":0,\"chain\":[]\x7d".toList

/-- `to_jsonl_string` on the records of seconds 1 and 2. -/
def sampleJsonl (e : FileEvent) : Str :=
  if e = sampleEvent 1 then sampleLine 1 else if e = sampleEvent 2 then sampleLine 2 else []

/-- `from_jsonl_str` on their lines. -/
def sampleParse (s : Str) : Option FileEvent :=
  if s = sampleLine 1 then some (sampleEvent 1)
  else if s = sampleLine 2 then some (sampleEvent 2) else none

end FileLogWriter

end Fsmon
