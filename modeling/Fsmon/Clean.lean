/-
# `Fsmon.Clean` — a clean of one log, call by call

`common/clean/core.rs` on the files it works with: the log, the temporary file
the lines to keep are copied to, and the backup that is made before the
temporary file takes the log's name.  The last two may be there from earlier
runs.  `CleanIo` says which of the calls fail.

    copy_lines        the loop over the lines of the log
    trim_temp         the size limit, on the temporary file
    clean_single_log  the whole clean: what it returns, and what it leaves

The log's own name is made by `cmd_to_log_name` and ends in `.jsonl`, so the three
are three files.
-/
import Fsmon.Crash

namespace Fsmon

open Text Query

/-! ## Names -/

/-- `Path::file_stem` of a file name: what comes before its last dot, unless it begins with that. -/
def file_stem (name : OsString) : OsString :=
  let dot := name.length - 1 - name.reverse.idxOf 0x2E
  if 0x2E ∈ name ∧ dot ≠ 0 then name.take dot else name

/-- `Path::with_extension`. -/
def PathBuf.with_extension (p : PathBuf) (extension : OsString) : PathBuf :=
  match p.fileName with
  | none => p
  | some name => p.dropLast ++ [file_stem name ++ 0x2E :: extension]

/-- The temporary file of a log. -/
def temp_file (log_file : PathBuf) : PathBuf := log_file.with_extension [0x74, 0x6D, 0x70]

/-- The backup of a log. -/
def backup_file (log_file : PathBuf) : PathBuf := log_file.with_extension [0x62, 0x61, 0x6B]

theorem file_stem_eq {stem extension : OsString} (hstem : stem ≠ []) (hdot : 0x2E ∉ extension) :
    file_stem (stem ++ 0x2E :: extension) = stem := by
  have hidx : (stem ++ 0x2E :: extension).reverse.idxOf 0x2E = extension.length := by
    rw [List.reverse_append, List.reverse_cons, List.append_assoc, List.idxOf_append_of_notMem
      (by simpa using hdot), List.length_reverse, List.singleton_append, List.idxOf_cons_self,
      Nat.add_zero]
  have hlength : (stem ++ 0x2E :: extension).length - 1 - extension.length = stem.length := by
    rw [List.length_append, List.length_cons]
    omega
  have hpos : stem.length ≠ 0 := fun h => hstem (List.length_eq_zero_iff.1 h)
  rw [file_stem, hidx, hlength, if_pos ⟨List.mem_append_right _ List.mem_cons_self, hpos⟩,
    List.take_left]

theorem with_extension_eq {dir : PathBuf} {stem extension : OsString} (hstem : stem ≠ [])
    (hdot : 0x2E ∉ extension) (other : OsString) :
    PathBuf.with_extension (dir ++ [stem ++ 0x2E :: extension]) other =
      dir ++ [stem ++ 0x2E :: other] := by
  rw [PathBuf.with_extension, PathBuf.fileName, List.getLast?_concat]
  simp only [List.dropLast_concat, file_stem_eq hstem hdot]

/-- The log of a command, its temporary file and its backup are three files. -/
theorem log_siblings_nodup (log_dir : PathBuf) (cmd : String) :
    [log_dir ++ [encode (cmd_to_log_name cmd)],
      temp_file (log_dir ++ [encode (cmd_to_log_name cmd)]),
      backup_file (log_dir ++ [encode (cmd_to_log_name cmd)])].Nodup := by
  have hname : encode (cmd_to_log_name cmd) =
      encode (cmd.toList.map (fun c => if c = '/' then '_' else c) ++ "_log".toList) ++
        0x2E :: encode "jsonl".toList := by
    rw [cmd_to_log_name, encode_append, encode_append, List.append_assoc]
    rfl
  have hstem : encode (cmd.toList.map (fun c => if c = '/' then '_' else c) ++ "_log".toList) ≠ [] := by
    rw [encode_append]
    exact fun h => absurd (List.append_eq_nil_iff.1 h).2 (by decide)
  rw [hname, temp_file, backup_file, with_extension_eq hstem (by decide),
    with_extension_eq hstem (by decide)]
  have htemp : encode "jsonl".toList ≠ [0x74, 0x6D, 0x70] := by decide
  have hbackup : encode "jsonl".toList ≠ [0x62, 0x61, 0x6B] := by decide
  simpa [-encode_cons] using And.intro htemp hbackup

/-! ## Files and calls -/

/-- What is bound to the name of a log. -/
inductive LogName where
  | absent
  | symlink
  | file (content : Bytes)
  deriving DecidableEq, Repr

/-- A log and its two siblings. -/
structure CleanDir where
  log : LogName
  temp : Option Bytes
  backup : Option Bytes
  deriving DecidableEq, Repr

/-- The outcomes of `fs::copy`, which empties its target before it copies. -/
inductive BackupCopy where
  | failed
  | cut (n : Nat)
  | done
  deriving DecidableEq, Repr

/-- The outcomes of `truncate_from_start`; unless it is done the file is as it was. -/
inductive Truncation where
  | failed
  /-- The path has become a link. -/
  | symlink
  | done
  deriving DecidableEq, Repr

/-- The calls of a clean, in their order: which of them succeed. -/
structure CleanIo where
  stat : Bool
  open_log : Bool
  create_temp : Bool
  /-- Reading the line with this number, or the end of the log after the last one. -/
  read : Nat → Bool
  /-- Writing the line with this number. -/
  write : Nat → Bool
  /-- How much of what was written reaches the temporary file, if not all of it: the writer is
  flushed when it is dropped, and the result is dropped, too. -/
  flushed : Option Nat
  find_tail : Bool
  count : Bool
  truncate : Truncation
  remove_temp : Bool
  backup : BackupCopy
  rename : Bool
  remove_backup : Bool
  restore : Bool

namespace CleanIo

/-- All I/O succeeds. -/
def calm : CleanIo where
  stat := true
  open_log := true
  create_temp := true
  read := fun _ => true
  write := fun _ => true
  flushed := none
  find_tail := true
  count := true
  truncate := .done
  remove_temp := true
  backup := .done
  rename := true
  remove_backup := true
  restore := true

/-- The temporary file, when these bytes have been written to it. -/
def flush (io : CleanIo) (written : Bytes) : Bytes :=
  match io.flushed with
  | none => written
  | some n => written.take n

/-- The backup after `fs::copy`. -/
def backup_of (io : CleanIo) (content : Bytes) (old : Option Bytes) : Option Bytes :=
  match io.backup with
  | .failed => old
  | .cut n => some (content.take n)
  | .done => some content

end CleanIo

inductive CleanError where
  | io
  | refused (text : Str)
  deriving DecidableEq, Repr

/-- The error for a link. -/
def CleanError.symlink (verb : String) (path : PathBuf) : CleanError :=
  .refused ("Refusing to ".toList ++ verb.toList ++ " symlink: ".toList ++ fromUtf8Lossy path.toBytes)

/-- What a clean prints: the entries of a dry run, and the numbers of its last lines. -/
structure CleanReport where
  to_delete : List FileEvent
  total_deleted : Nat
  original_size : Nat
  kept_bytes : Nat
  deriving DecidableEq, Repr

/-! ## The copy -/

/-- The copy loop between two lines. -/
structure Copied where
  written : Bytes
  kept_bytes : Nat
  time_deleted : Nat
  to_delete : List FileEvent
  deriving DecidableEq, Repr

section
variable (from_jsonl_str : Str → Option FileEvent) (io : CleanIo) (time_filter : Option TimeFilter)

/-- A line of the log: whether the loop goes on after it. -/
def copy_line (i : Nat) (line : Str) (c : Copied) : Bool × Copied :=
  let trimmed := trim line
  if trimmed = [] then (true, c)
  else
    let event := parse_log_line_jsonl from_jsonl_str trimmed
    let should_keep : Bool :=
      match event with
      | some event => time_filter.all (·.is_match event.time)
      | none => true
    if should_keep then
      let written := c.written ++ lineBytes line
      if io.write i then
        (true, { c with written, kept_bytes := c.kept_bytes + ((encode line).length + 1) })
      else (false, { c with written })
    else
      (true,
        { c with
          time_deleted := c.time_deleted + 1
          to_delete := c.to_delete ++ event.toList })

/-- The loop, from the line with the number `i` on. -/
def copy_lines : List Bytes → Nat → Copied → Bool × Copied
  | [], i, c => (io.read i, c)
  | l :: ls, i, c =>
      if io.read i then
        match fromUtf8 l with
        | none => (false, c)
        | some s =>
            let r := copy_line from_jsonl_str io time_filter i (chomp s) c
            if r.1 then copy_lines ls (i + 1) r.2 else r
      else (false, c)

/-! ## The size limit -/

/-- Count newlines in the first `upto` bytes of a file. -/
def count_lines (file : Bytes) (upto : Nat) : Nat := (file.take upto).count newline

/-- Truncate a file by removing bytes from the start. -/
def truncate_from_start (path : PathBuf) (file : Bytes) (offset : Nat) : Except CleanError Bytes :=
  if offset = 0 then .ok file
  else
    match io.truncate with
    | .failed => .error .io
    | .symlink => .error (.symlink "truncate" path)
    | .done => .ok (if file.length ≤ offset then [] else file.drop offset)

/-- `filter.bytes() as usize`. -/
def max_bytes (filter : SizeFilter) : Nat := (BitVec.ofInt 64 filter.bytes).toNat

/-- The lines that are dropped, the bytes that are kept, and the temporary file. -/
def trim_temp (path : PathBuf) (max_size : Option SizeFilter) (temp : Bytes) (kept_bytes : Nat) :
    Except CleanError (Nat × Nat × Bytes) :=
  match max_size with
  | none => .ok (0, kept_bytes, temp)
  | some filter =>
      if should_trim kept_bytes filter then
        if io.find_tail then
          let trim_start := find_tail_offset temp (max_bytes filter)
          if io.count then
            (truncate_from_start io path temp trim_start).map fun file =>
              (count_lines temp trim_start, kept_bytes - trim_start, file)
          else .error .io
        else .error .io
      else .ok (0, kept_bytes, temp)

/-! ## The whole clean -/

/-- The rename failed: the backup is put back, the temporary file removed. -/
def CleanDir.roll_back (d : CleanDir) : CleanDir :=
  let d₁ : CleanDir :=
    match io.restore, d.backup with
    | true, some content => { d with log := .file content, backup := none }
    | _, _ => d
  { d₁ with temp := if io.remove_temp then none else d₁.temp }

/-- The new content is in the temporary file: it takes the log's name, with a backup in between. -/
def CleanDir.replace_log (content temp : Bytes) (report : CleanReport) (d : CleanDir) :
    Except CleanError CleanReport × CleanDir :=
  let backup := io.backup_of content d.backup
  if io.rename then
    (.ok report, ⟨.file temp, none, if io.remove_backup then none else backup⟩)
  else (.error .io, CleanDir.roll_back io ⟨.file content, some temp, backup⟩)

/-- The lines have been copied: the size limit, then the end of a dry run, or the new log. -/
def CleanDir.finish (log_file : PathBuf) (max_size : Option SizeFilter) (dry_run : Bool)
    (content : Bytes) (c : Copied) (d : CleanDir) : Except CleanError CleanReport × CleanDir :=
  let temp := io.flush c.written
  match trim_temp io (temp_file log_file) max_size temp c.kept_bytes with
  | .error e => (.error e, { d with temp := some temp })
  | .ok (size_deleted, kept_bytes, temp) =>
      let report : CleanReport :=
        ⟨if dry_run then c.to_delete else [], c.time_deleted + size_deleted, content.length, kept_bytes⟩
      if dry_run then (.ok report, { d with temp := if io.remove_temp then none else some temp })
      else CleanDir.replace_log io content temp report d

/-- Clean a single log file by time and size. -/
def CleanDir.clean_single_log (log_file : PathBuf) (max_size : Option SizeFilter) (dry_run : Bool)
    (d : CleanDir) : Except CleanError CleanReport × CleanDir :=
  if io.stat then
    match d.log with
    | .absent => (.error .io, d)
    | .symlink => (.error (.symlink "clean" log_file), d)
    | .file content =>
        if io.open_log && io.create_temp then
          let r := copy_lines from_jsonl_str io time_filter (splitLines content) 0 ⟨[], 0, 0, []⟩
          if r.1 then CleanDir.finish io log_file max_size dry_run content r.2 d
          else (.error .io, { d with temp := some (io.flush r.2.written) })
        else (.error .io, d)
  else (.error .io, d)

end

end Fsmon
