/-
# `Fsmon.Clean.Rollback` — a clean that fails

The log's name is given to another file in two places: by the rename of the
temporary file, and, if that fails, by the rename of the backup.  Nobody looks
at whether the backup has been made.

    `Trims`                 the calls of the size trim succeed
    `Ready`                 so do all calls before the rename
    `Spoiled`               the backup is not the log
    `failed_clean_keeps_iff`  a clean that fails leaves the log as it was, unless it is ready,
                            the rename fails, and a spoiled backup is put in its place
-/
import Fsmon.Clean.Kept

namespace Fsmon

open Text Query

/-- The calls of the size trim succeed, if there is something to trim. -/
def Trims (io : CleanIo) (max_size : Option SizeFilter) (temp : Bytes) (kept_bytes : Nat) : Prop :=
  ∀ filter, max_size = some filter → should_trim kept_bytes filter = true →
    io.find_tail = true ∧ io.count = true ∧
      (find_tail_offset temp (max_bytes filter) = 0 ∨ io.truncate = .done)

/-- Every call before the rename succeeds. -/
structure Ready (from_jsonl_str : Str → Option FileEvent) (time_filter : Option TimeFilter)
    (io : CleanIo) (max_size : Option SizeFilter) (content : Bytes) : Prop where
  stat : io.stat = true
  open_log : io.open_log = true
  create_temp : io.create_temp = true
  copies : Copies from_jsonl_str time_filter io 0 (splitLines content)
  trims : Trims io max_size (io.flush (fileOf (kept_lines from_jsonl_str time_filter content)))
    (fileOf (kept_lines from_jsonl_str time_filter content)).length

/-- There is a backup, and it is not the log: it is left over from an earlier run, or its copy was cut
short. -/
def Spoiled (io : CleanIo) (content : Bytes) (old : Option Bytes) : Prop :=
  match io.backup with
  | .failed => ∃ b, old = some b ∧ b ≠ content
  | .cut n => n < content.length
  | .done => False

theorem spoiled_iff {io : CleanIo} {content : Bytes} {old : Option Bytes} :
    Spoiled io content old ↔ ∃ b, io.backup_of content old = some b ∧ b ≠ content := by
  rw [Spoiled, CleanIo.backup_of]
  cases io.backup with
  | failed => exact Iff.rfl
  | cut n =>
      simp only [Option.some.injEq, exists_eq_left', ne_eq, List.take_eq_self_iff, Nat.not_le]
  | done => simp

theorem truncate_ok_iff {io : CleanIo} {path : PathBuf} {file : Bytes} {offset : Nat} :
    (∃ after, truncate_from_start io path file offset = .ok after) ↔
      offset = 0 ∨ io.truncate = .done := by
  rw [truncate_from_start]
  split
  · rename_i hzero
    exact ⟨fun _ => .inl hzero, fun _ => ⟨file, rfl⟩⟩
  · rename_i hpos
    cases io.truncate with
    | failed => simp [hpos]
    | symlink => simp [hpos]
    | done => simp

theorem trim_ok_iff {io : CleanIo} {path : PathBuf} {max_size : Option SizeFilter} {temp : Bytes}
    {kept_bytes : Nat} : (∃ r, trim_temp io path max_size temp kept_bytes = .ok r) ↔
      Trims io max_size temp kept_bytes := by
  rw [Trims]
  cases max_size with
  | none => exact ⟨fun _ filter hf => (by cases hf), fun _ => ⟨_, rfl⟩⟩
  | some filter =>
      rw [trim_temp]
      simp only [Option.some.injEq, forall_eq']
      cases should_trim kept_bytes filter with
      | false => simp
      | true =>
          cases io.find_tail with
          | false => simp
          | true =>
              cases io.count with
              | false => simp
              | true =>
                  simp only [if_true, true_and, true_implies]
                  rw [← @truncate_ok_iff io path temp]
                  cases truncate_from_start io path temp
                    (find_tail_offset temp (max_bytes filter)) with
                  | error e => simp [Except.map]
                  | ok after => simp [Except.map]

section
variable {from_jsonl_str : Str → Option FileEvent} {time_filter : Option TimeFilter}
  {io : CleanIo} {log_file : PathBuf} {max_size : Option SizeFilter} {dry_run : Bool}
  {content : Bytes} {temp backup : Option Bytes}

/-- What an attempt leaves under the log's name if it fails. -/
def KeepsLog (content : Bytes) (r : Except CleanError CleanReport × CleanDir) : Prop :=
  ∀ e, r.1 = .error e → r.2.log = .file content

theorem keeps_replace (new : Bytes) (report : CleanReport) :
    KeepsLog content (CleanDir.replace_log io content new report ⟨.file content, temp, backup⟩) ↔
      ¬ (io.rename = false ∧ io.restore = true ∧ Spoiled io content backup) := by
  rw [spoiled_iff, CleanDir.replace_log, KeepsLog]
  cases io.rename with
  | true => simp
  | false =>
      rw [CleanDir.roll_back]
      cases io.restore with
      | false => simp
      | true =>
          cases hb : io.backup_of content backup with
          | none => simp
          | some b => simp

theorem keeps_finish (c : Copied) :
    KeepsLog content (CleanDir.finish io log_file max_size dry_run content c
      ⟨.file content, temp, backup⟩) ↔
        ¬ (dry_run = false ∧ Trims io max_size (io.flush c.written) c.kept_bytes ∧
          io.rename = false ∧ io.restore = true ∧ Spoiled io content backup) := by
  rw [CleanDir.finish, ← @trim_ok_iff io (temp_file log_file)]
  simp only
  cases trim_temp io (temp_file log_file) max_size (io.flush c.written) c.kept_bytes with
  | error e => simp [KeepsLog]
  | ok r =>
      obtain ⟨size_deleted, kept_bytes, new⟩ := r
      cases dry_run with
      | true => simp [KeepsLog]
      | false =>
          simp only [Bool.false_eq_true, if_false]
          rw [keeps_replace]
          simp

/-- **A failed clean and the log**: for every log, every backup and temporary file left over, and
every pattern of failing calls. -/
theorem failed_clean_keeps_iff {d : CleanDir} (hlog : d.log = .file content) :
    (∀ e, (d.clean_single_log from_jsonl_str io time_filter log_file max_size dry_run).1 = .error e →
      (d.clean_single_log from_jsonl_str io time_filter log_file max_size dry_run).2.log =
        .file content) ↔
      ¬ (dry_run = false ∧ Ready from_jsonl_str time_filter io max_size content ∧
        io.rename = false ∧ io.restore = true ∧ Spoiled io content d.backup) := by
  obtain ⟨log, temp, backup⟩ := d
  cases hlog
  show KeepsLog content _ ↔ _
  rw [CleanDir.clean_single_log]
  have hready : Ready from_jsonl_str time_filter io max_size content ↔ io.stat = true ∧
      io.open_log = true ∧ io.create_temp = true ∧
        Copies from_jsonl_str time_filter io 0 (splitLines content) ∧
          Trims io max_size (io.flush (fileOf (kept_lines from_jsonl_str time_filter content)))
            (fileOf (kept_lines from_jsonl_str time_filter content)).length := by
    constructor
    · intro h
      exact ⟨h.stat, h.open_log, h.create_temp, h.copies, h.trims⟩
    · rintro ⟨hstat, hopen, hcreate, hcopies, htrims⟩
      exact ⟨hstat, hopen, hcreate, hcopies, htrims⟩
  rw [hready]
  cases io.stat with
  | false => simp [KeepsLog]
  | true =>
      cases io.open_log with
      | false => simp [KeepsLog]
      | true =>
          cases io.create_temp with
          | false => simp [KeepsLog]
          | true =>
              obtain ⟨hiff, hcopied⟩ := @copy_lines_ok from_jsonl_str time_filter io
                (splitLines content) 0 ⟨[], 0, 0, []⟩
              simp only [if_true, Bool.and_self, true_and]
              cases hok : (copy_lines from_jsonl_str io time_filter (splitLines content) 0
                  ⟨[], 0, 0, []⟩).1 with
              | false =>
                  have hno : ¬ Copies from_jsonl_str time_filter io 0 (splitLines content) := by
                    rw [← hiff, hok]
                    exact Bool.false_ne_true
                  simp [KeepsLog, hno]
              | true =>
                  have hcopies := hiff.1 hok
                  have hfile := hcopied hcopies
                  rw [show (splitLines content).filterMap (fun l => (fromUtf8 l).map chomp) =
                    linesOf content from rfl, copied_file] at hfile
                  rw [if_pos rfl, keeps_finish, hfile]
                  simp [hcopies]

end

/-- The backup cannot be copied, and the temporary file is gone when it is to be renamed. -/
def noBackup : CleanIo := { CleanIo.calm with backup := .failed, rename := false }

/-- An old backup is there. -/
theorem failed_clean_keeps_old_backup :
    (∀ e, (CleanDir.clean_single_log (fun _ => none) noBackup none [[0x61]] none false
        ⟨.file [0x61, 0x0A], none, some [0x62, 0x0A]⟩).1 = .error e →
      (CleanDir.clean_single_log (fun _ => none) noBackup none [[0x61]] none false
        ⟨.file [0x61, 0x0A], none, some [0x62, 0x0A]⟩).2.log = .file [0x61, 0x0A]) ↔
      ¬ (false = false ∧ Ready (fun _ => none) none noBackup none [0x61, 0x0A] ∧
        noBackup.rename = false ∧ noBackup.restore = true ∧
          Spoiled noBackup [0x61, 0x0A] (some [0x62, 0x0A])) :=
  failed_clean_keeps_iff rfl

/-- It takes the place of the log. -/
theorem log_replaced_by_old_backup :
    ¬ ∀ e, (CleanDir.clean_single_log (fun _ => none) noBackup none [[0x61]] none false
        ⟨.file [0x61, 0x0A], none, some [0x62, 0x0A]⟩).1 = .error e →
      (CleanDir.clean_single_log (fun _ => none) noBackup none [[0x61]] none false
        ⟨.file [0x61, 0x0A], none, some [0x62, 0x0A]⟩).2.log = .file [0x61, 0x0A] := by
  intro h
  have hafter : LogName.file [0x62, 0x0A] = LogName.file [0x61, 0x0A] := h .io rfl
  cases hafter

end Fsmon
