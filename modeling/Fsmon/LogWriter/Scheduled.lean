/-
# `Fsmon.LogWriter.Scheduled` — what waits, and who comes for it

A line waits in the buffer of a handle until the tick flushes the logs in
`dirty_logs`; an event waits in `disk_buf` until a write finds the disk unhealthy
for ten seconds.

    Scheduled      each log with lines in its buffer is dirty
    Awaited        if events wait in `disk_buf`, the disk is held to be unhealthy

A write through a cached handle schedules its log, unless the retry of the buffer
made it; the tick takes all logs off the schedule, also those it fails to flush
(`scheduled_of_guarded`).  One flag stands for the health of all logs, and a write
that succeeds sets it whatever waits for another log (`awaited_iff`).
-/
import Fsmon.LogWriter.Untroubled
import Fsmon.LogWriter.Conserve

namespace Fsmon

open Text

namespace FileLogWriter

/-! ## Lines in the buffers -/

/-- Each log with lines in the buffer of its handle is due for the next tick. -/
def Scheduled (w : FileLogWriter) : Prop := ∀ p, w.pending p ≠ [] → p ∈ w.dirty_logs

/-- No buffer that was empty holds lines, and the dirty logs are the same. -/
structure Emptier (w w' : FileLogWriter) : Prop where
  pending : ∀ p, w'.pending p ≠ [] → w.pending p ≠ []
  dirty : w'.dirty_logs = w.dirty_logs

namespace Emptier

theorem refl (w : FileLogWriter) : Emptier w w := ⟨fun _ h => h, rfl⟩

theorem trans {a b c : FileLogWriter} (h₁ : Emptier a b) (h₂ : Emptier b c) : Emptier a c :=
  ⟨fun p h => h₁.pending p (h₂.pending p h), h₂.dirty.trans h₁.dirty⟩

theorem scheduled {w w' : FileLogWriter} (h : Emptier w w') (hs : Scheduled w) : Scheduled w' := by
  intro p hp
  rw [h.dirty]
  exact hs p (h.pending p hp)

theorem put {w : FileLogWriter} {p : LogPath} {h : BufWriter} {out rest : List Str}
    (hh : h.buffered = w.pending p) (hrest : h.buffered = [] → rest = []) :
    Emptier w (w.put p h out rest) := by
  refine ⟨fun q hq => ?_, rfl⟩
  rw [pending_put] at hq
  split at hq
  · rename_i hqp
    rw [hqp, ← hh]
    exact fun hnil => hq (hrest hnil)
  · exact hq

theorem drop_handle (w : FileLogWriter) (p : LogPath) (f : Flush) : Emptier w (w.drop_handle p f) := by
  refine ⟨fun q hq => ?_, (drop_handle_sameBooks w p f).dirty_logs⟩
  rw [pending_drop_handle] at hq
  split at hq
  · exact absurd rfl hq
  · exact hq

theorem evict (w : FileLogWriter) (io : Io) : Emptier w (w.evict io) := by
  rw [FileLogWriter.evict]
  split
  · cases w.evict_path io.victim with
    | none => exact refl w
    | some q => exact drop_handle w q io.evict
  · exact refl w

/-- The handle that is returned has what its log had in its buffer. -/
theorem get_or_open {w w₁ : FileLogWriter} {io : Io} {p : LogPath} {h? : Option BufWriter}
    (hg : w.get_or_open io p = (h?, w₁)) :
    Emptier w w₁ ∧ ∀ h, h? = some h → h.buffered = w₁.pending p ∧ h.buffered = w.pending p := by
  rw [FileLogWriter.get_or_open] at hg
  cases hl : w.handles.lookup p with
  | some h =>
      simp only [hl] at hg
      cases hg
      refine ⟨refl w, fun g hh => ?_⟩
      cases hh
      exact ⟨(pending_eq hl).symm, (pending_eq hl).symm⟩
  | none =>
      have hev := evict w io
      have hnone : w.pending p = [] := by simp [FileLogWriter.pending, hl]
      by_cases ho : io.open_ok = true
      · simp only [hl, ho, if_true] at hg
        cases hg
        refine ⟨hev.trans ⟨fun q hq => ?_, rfl⟩, fun g hh => ?_⟩
        · rw [pending_insert] at hq
          split at hq
          · exact absurd rfl hq
          · exact hq
        · cases hh
          exact ⟨by rw [pending_insert, if_pos rfl], hnone.symm⟩
      · simp only [hl, ho] at hg
        cases hg
        exact ⟨hev, fun h hh => by cases hh⟩

theorem flush_handle (w : FileLogWriter) (f : Flush) (p : LogPath) :
    Emptier w (w.flush_handle f p) := by
  rw [FileLogWriter.flush_handle]
  cases hl : w.handles.lookup p with
  | none => exact refl w
  | some h =>
      refine put (pending_eq hl).symm fun hnil => ?_
      rw [hnil, Flush.rest_nil]

theorem foldl {g : FileLogWriter → LogPath → FileLogWriter} (hg : ∀ w p, Emptier w (g w p)) :
    ∀ (ps : List LogPath) (w : FileLogWriter), Emptier w (ps.foldl g w) := Run.rel_foldl refl trans hg

end Emptier

/-! ## One attempt, the retries -/

/-- A write that hands over a whole buffer, or whose log is dirty. -/
theorem scheduled_accept {w : FileLogWriter} {p : LogPath} {h : BufWriter} {line : Str} {n : Nat}
    (hs : Scheduled w) (hok : p ∈ w.dirty_logs ∨ h.buffered.length < n) :
    Scheduled (w.accept p h line n) := by
  intro q hq
  have hput : (w.accept p h line n).pending q =
      if q = p then (h.buffered ++ [line]).drop n else w.pending q :=
    pending_put w p q h ((h.buffered ++ [line]).take n) _
  rw [hput] at hq
  split at hq
  · rename_i hqp
    rcases hok with hdirty | hn
    · exact hqp ▸ hdirty
    · exact absurd (List.drop_of_length_le (by simp; omega)) hq
  · exact hs q hq

section
variable (jsonl_string : FileEvent → Str)

/-- A retry that is accepted hands over the whole buffer of its log, or the log is dirty. -/
def RetryScheduled : FileLogWriter → (Nat → Io) → List (FileEvent × String) → Prop
  | _, _, [] => True
  | w, ios, q :: rest =>
      (w.opens (ios 0) (cmd_to_log_name q.2) = true → ∀ n, (ios 0).write = .accepted n →
        cmd_to_log_name q.2 ∈ w.dirty_logs ∨ (w.pending (cmd_to_log_name q.2)).length < n) ∧
      RetryScheduled (w.retry_one jsonl_string (ios 0) q).2 (fun i => ios (i + 1)) rest

/-- The tick gets all the lines of a log out of its buffer, if the log's file is still linked. -/
def Flushes (w : FileLogWriter) (f : Flush) (p : LogPath) : Prop :=
  ∀ h, w.handles.lookup p = some h → w.log_dir.nlink h.inode ≠ 0 → f.rest h.buffered = []

/-- The retries schedule what they leave in a buffer, and the tick flushes what it takes off. -/
def KeepsSchedule (w : FileLogWriter) : Op → Prop
  | .write now ios _ _ _ => w.retry_due now = true → RetryScheduled jsonl_string w ios w.disk_buf
  | .retry_buf _ ios => RetryScheduled jsonl_string w ios w.disk_buf
  | .tick f => ∀ p ∈ w.dirty_logs, Flushes w (f p) p
  | .flush _ => True

end

section
variable {jsonl_string : FileEvent → Str}

theorem retry_one_scheduled {w w' : FileLogWriter} {io : Io} {q : FileEvent × String} {ok : Bool}
    (hr : w.retry_one jsonl_string io q = (ok, w')) (hs : Scheduled w)
    (hok : w.opens io (cmd_to_log_name q.2) = true → ∀ n, io.write = .accepted n →
      cmd_to_log_name q.2 ∈ w.dirty_logs ∨ (w.pending (cmd_to_log_name q.2)).length < n) :
    Scheduled w' := by
  rcases retry_one_cases hr with ⟨h, w₁, n, hg, hw, _, rfl⟩ | ⟨h, w₁, n, hg, _, _, rfl⟩ | ⟨hg, _⟩
  · obtain ⟨hempty, hh⟩ := Emptier.get_or_open hg
    have hopens : w.opens io (cmd_to_log_name q.2) = true := by
      rw [← get_or_open_isSome, hg]
      rfl
    refine scheduled_accept (hempty.scheduled hs) ?_
    rw [hempty.dirty, (hh h rfl).2]
    exact hok hopens n hw
  · obtain ⟨hempty, hh⟩ := Emptier.get_or_open hg
    have hrefuse : Emptier w₁ (w₁.refuse (cmd_to_log_name q.2) h n) := by
      refine Emptier.put (hh h rfl).1 fun hnil => ?_
      rw [hnil, List.drop_nil]
    exact (hempty.trans (hrefuse.trans (Emptier.drop_handle _ _ _))).scheduled hs
  · exact (Emptier.get_or_open hg).1.scheduled hs

theorem retry_loop_scheduled : ∀ (todo remaining : List (FileEvent × String)) (w : FileLogWriter)
    (ios : Nat → Io), Scheduled w → RetryScheduled jsonl_string w ios todo →
      Scheduled (retry_loop jsonl_string w ios remaining todo).2 := by
  intro todo
  induction todo with
  | nil =>
      intro _ _ _ hs _
      exact hs
  | cons q rest ih =>
      intro remaining w ios hs hok
      have hone : Scheduled (w.retry_one jsonl_string (ios 0) q).2 := retry_one_scheduled rfl hs hok.1
      exact ih _ _ _ hone hok.2

theorem flush_disk_buf_scheduled {w : FileLogWriter} {ios : Nat → Io} (now : Nat) (hs : Scheduled w)
    (hok : RetryScheduled jsonl_string w ios w.disk_buf) :
    Scheduled (w.flush_disk_buf jsonl_string now ios) := by
  rw [flush_disk_buf]
  split
  · exact hs
  · exact retry_loop_scheduled w.disk_buf [] w ios hs hok

/-- A direct write always schedules its log. -/
theorem write_line_scheduled {w : FileLogWriter} (hs : Scheduled w) (now : Nat) (io : Io)
    (event : FileEvent) (cmd_name : String) :
    Scheduled (w.write_line jsonl_string now io event cmd_name).2 := by
  rcases write_line_cases jsonl_string w now io event cmd_name with
    ⟨h, w₁, n, hg, _, heq⟩ | ⟨h, w₁, n, hg, _, heq⟩ | ⟨w₁, buf, hg, _, heq⟩
  · obtain ⟨hempty, _⟩ := Emptier.get_or_open hg
    have hs₁ := hempty.scheduled hs
    rw [heq]
    -- the log is dirty afterwards, whatever its buffer holds
    have hinsert : Scheduled
        { w₁ with dirty_logs := w₁.dirty_logs.insert (cmd_to_log_name cmd_name) } := fun q hq =>
      List.mem_insert_of_mem (hs₁ q hq)
    exact scheduled_accept hinsert (.inl (List.mem_insert_self ..))
  · obtain ⟨hempty, hh⟩ := Emptier.get_or_open hg
    rw [heq]
    refine (hempty.trans (Emptier.put (hh h rfl).1 fun hnil => ?_)).scheduled hs
    rw [hnil, List.drop_nil]
  · obtain ⟨hempty, _⟩ := Emptier.get_or_open hg
    rw [heq]
    exact (hempty.trans (Emptier.drop_handle w₁ (cmd_to_log_name cmd_name) io.drop)).scheduled hs

/-! ## The tick -/

theorem pending_flush_log {w : FileLogWriter} {f : Flush} {p : LogPath} (h : Flushes w f p)
    (q : LogPath) : (w.flush_log f p).pending q = if q = p then [] else w.pending q := by
  rw [flush_log]
  cases hl : w.handles.lookup p with
  | none =>
      by_cases hqp : q = p
      · subst hqp
        simp [pending, hl]
      · simp [hqp]
  | some g =>
      simp only
      split
      · rw [pending_drop_handle]
      · rename_i hlinked
        rw [pending_put, h g hl hlinked]

/-- Flushing one log leaves the others to be flushed as they were. -/
theorem Flushes.flush_log {w : FileLogWriter} {f g : Flush} {p q : LogPath} (hp : Flushes w f p)
    (hq : Flushes w g q) : Flushes (w.flush_log f p) g q := by
  intro h hl hlinked
  have hpending := pending_flush_log hp q
  rw [pending_eq hl] at hpending
  split at hpending
  · rw [hpending, Flush.rest_nil]
  · rename_i hne
    have hlookup : (w.flush_log f p).handles.lookup q = w.handles.lookup q ∧
        (w.flush_log f p).log_dir.nlink = w.log_dir.nlink := by
      rw [FileLogWriter.flush_log]
      cases hlp : w.handles.lookup p with
      | none => exact ⟨rfl, rfl⟩
      | some h' =>
          simp only
          split
          · rw [drop_handle, hlp]
            exact ⟨by simp [hne], rfl⟩
          · exact ⟨by simp [put, hne], rfl⟩
    rw [hlookup.1] at hl
    rw [hlookup.2] at hlinked
    exact hq h hl hlinked

/-- Once each log of a list is flushed, only the others have lines in their buffers. -/
theorem pending_foldl_flush_log {f : LogPath → Flush} : ∀ (ps : List LogPath) (w : FileLogWriter),
    (∀ p ∈ ps, Flushes w (f p) p) → (∀ q, w.pending q ≠ [] → q ∈ ps) →
      ∀ q, (ps.foldl (fun w p => w.flush_log (f p) p) w).pending q = [] := by
  intro ps
  induction ps with
  | nil =>
      intro w _ hsub q
      by_contra hne
      cases hsub q hne
  | cons p ps ih =>
      intro w hflush hsub
      have hp := hflush p List.mem_cons_self
      refine ih _ (fun d hd => hp.flush_log (hflush d (List.mem_cons_of_mem p hd))) fun q hq => ?_
      rw [pending_flush_log hp] at hq
      split at hq
      · exact absurd rfl hq
      · rename_i hne
        exact (List.mem_cons.1 (hsub q hq)).resolve_left hne

/-- A tick that flushes all the dirty logs leaves nothing in a buffer. -/
theorem pending_tick {w : FileLogWriter} {f : LogPath → Flush} (hs : Scheduled w)
    (hflush : ∀ p ∈ w.dirty_logs, Flushes w (f p) p) (q : LogPath) :
    (w.flush_and_sync_dirty_logs f).pending q = [] :=
  pending_foldl_flush_log w.dirty_logs { w with dirty_logs := [] } hflush hs q

theorem apply_scheduled {w : FileLogWriter} {op : Op} (hs : Scheduled w)
    (hok : KeepsSchedule jsonl_string w op) : Scheduled (w.apply jsonl_string op) := by
  cases op with
  | write now ios io event cmd_name =>
      refine write_line_scheduled ?_ now io event cmd_name
      rw [retry]
      split
      · rename_i hdue
        exact flush_disk_buf_scheduled now hs (hok hdue)
      · exact hs
  | retry_buf now ios => exact flush_disk_buf_scheduled now hs hok
  | tick f => exact fun q hq => absurd (pending_tick hs hok q) hq
  | flush f => exact (Emptier.foldl (fun w p => Emptier.flush_handle w (f p) p) _ w).scheduled hs

/-- **What is unflushed is scheduled**, in every state of a run whose retries schedule what they leave
in a buffer and whose ticks flush what they take off the schedule: the next tick that can flush leaves
nothing in a buffer. -/
theorem scheduled_of_guarded (log_dir : LogDir) (now : Nat) (ops : List Op)
    (hok : Run.Guarded (apply jsonl_string) (KeepsSchedule jsonl_string) (new log_dir now) ops)
    (n : Nat) :
    Scheduled (Run.exec (apply jsonl_string) (new log_dir now) (ops.take n)) ∧
      ∀ p, ((Run.exec (apply jsonl_string) (new log_dir now)
        (ops.take n)).flush_and_sync_dirty_logs fun _ => .done).pending p = [] := by
  have hnew : Scheduled (new log_dir now) := fun p hp => absurd rfl hp
  have hall : Scheduled (Run.exec (apply jsonl_string) (new log_dir now) (ops.take n)) :=
    Run.inv_exec (fun _ _ hs hok => apply_scheduled hs hok) _ _ hnew (hok.take n)
  exact ⟨hall, pending_tick hall fun _ _ _ _ _ => rfl⟩

/-- A record is written, and the tick a second later flushes it. -/
theorem scheduled_of_one_write :
    Scheduled (Run.exec (apply sampleJsonl) (new .empty 0)
      [.write 0 (fun _ => .calm) .calm (sampleEvent 1) "sh"]) ∧
    (Run.exec (apply sampleJsonl) (new .empty 0)
      [.write 0 (fun _ => .calm) .calm (sampleEvent 1) "sh"]).pending (cmd_to_log_name "sh") =
        [sampleLine 1] := by
  have hok : Run.Guarded (apply sampleJsonl) (KeepsSchedule sampleJsonl) (new .empty 0)
      [.write 0 (fun _ => .calm) .calm (sampleEvent 1) "sh", .tick fun _ => .done] := by
    refine ⟨fun hdue => ?_, fun _ _ _ _ _ => rfl, trivial⟩
    cases hdue
  exact ⟨(scheduled_of_guarded .empty 0 _ hok 1).1, by decide +kernel⟩

/-- The log of `sh` cannot be opened; ten seconds later it can, and the retry before a write to
another log leaves its line in the buffer of a log that is not dirty.  The next tick passes it by. -/
theorem unscheduled_by_retry :
    (Run.exec (apply sampleJsonl) (new .empty 0)
      [.write 0 (fun _ => .calm) .noOpen (sampleEvent 1) "sh",
       .write 10 (fun _ => .calm) .calm (sampleEvent 2) "vi",
       .tick fun _ => .done]).pending (cmd_to_log_name "sh") = [sampleLine 1] ∧
    ¬ ∀ ops : List Op, Scheduled (Run.exec (apply sampleJsonl) (new .empty 0) ops) := by
  refine ⟨by decide +kernel, fun h => ?_⟩
  have hmem := h [.write 0 (fun _ => .calm) .noOpen (sampleEvent 1) "sh",
    .write 10 (fun _ => .calm) .calm (sampleEvent 2) "vi"] (cmd_to_log_name "sh") (by decide +kernel)
  exact absurd hmem (by decide +kernel)

/-! ## Events in the buffer -/

/-- What waits in `disk_buf` is not taken for done. -/
def Awaited (w : FileLogWriter) : Prop := w.disk_buf ≠ [] → w.disk_healthy = false

/-- A write at least ten seconds after the last check retries what is awaited. -/
theorem Awaited.retry_due {w : FileLogWriter} (h : Awaited w) (hbuf : w.disk_buf ≠ []) {later : Nat}
    (hlater : RETRY_SECS ≤ later - w.last_disk_check) : w.retry_due later = true := by
  rw [FileLogWriter.retry_due, h hbuf, decide_eq_true hlater]
  rfl

/-- The log can be opened, and the write is accepted. -/
def Lands (w : FileLogWriter) (io : Io) (p : LogPath) : Prop :=
  w.opens io p = true ∧ ∃ n, io.write = .accepted n

variable (jsonl_string) in
theorem retry_one_iff (w : FileLogWriter) (io : Io) (q : FileEvent × String) :
    (w.retry_one jsonl_string io q).1 = true ↔ w.Lands io (cmd_to_log_name q.2) := by
  rcases hr : w.retry_one jsonl_string io q with ⟨ok, w'⟩
  rw [Lands, ← get_or_open_isSome]
  rcases retry_one_cases hr with ⟨h, w₁, n, hg, hw, rfl, _⟩ | ⟨h, w₁, n, hg, hw, rfl, _⟩ | ⟨hg, rfl⟩
  · simp [hg, hw]
  · simp [hw]
  · simp [hg]

variable (jsonl_string) in
/-- Each retry of a round lands. -/
def AllLand : FileLogWriter → (Nat → Io) → List (FileEvent × String) → Prop
  | _, _, [] => True
  | w, ios, q :: rest =>
      w.Lands (ios 0) (cmd_to_log_name q.2) ∧
        AllLand (w.retry_one jsonl_string (ios 0) q).2 (fun i => ios (i + 1)) rest

/-- Nothing remains of a round whose retries all land. -/
theorem retry_loop_eq_nil_iff : ∀ (todo remaining : List (FileEvent × String)) (w : FileLogWriter)
    (ios : Nat → Io), (retry_loop jsonl_string w ios remaining todo).1 = [] ↔
      remaining = [] ∧ AllLand jsonl_string w ios todo := by
  intro todo
  induction todo with
  | nil =>
      intro remaining _ _
      exact (and_iff_left trivial).symm
  | cons q rest ih =>
      intro remaining w ios
      rw [retry_loop, AllLand, ← retry_one_iff jsonl_string w]
      simp only
      rw [ih]
      cases (w.retry_one jsonl_string (ios 0) q).1 with
      | true => simp
      | false => simp

theorem flush_disk_buf_awaited (w : FileLogWriter) (now : Nat) (ios : Nat → Io) :
    Awaited (w.flush_disk_buf jsonl_string now ios) ∧
      ((w.flush_disk_buf jsonl_string now ios).disk_buf = [] ↔
        AllLand jsonl_string w ios w.disk_buf) := by
  rw [flush_disk_buf]
  split
  · rename_i hnil
    refine ⟨fun hne => absurd hnil hne, ?_⟩
    rw [hnil]
    exact iff_of_true rfl trivial
  · refine ⟨fun hne => ?_, ?_⟩
    · exact Bool.eq_false_iff.2 fun hempty => hne (List.isEmpty_iff.1 hempty)
    · exact (retry_loop_eq_nil_iff w.disk_buf [] w ios).trans (and_iff_right rfl)

variable (jsonl_string) in
/-- A direct write that lands leaves no event behind: the round of retries before it, if one is due,
has landed them all, and if none is due there are none. -/
def LeavesNone (w : FileLogWriter) : Op → Prop
  | .write now ios io _ cmd_name =>
      (w.retry jsonl_string now ios).Lands io (cmd_to_log_name cmd_name) →
        if w.retry_due now then AllLand jsonl_string w ios w.disk_buf else w.disk_buf = []
  | _ => True

variable (jsonl_string) in
theorem write_line_awaited_iff {w : FileLogWriter} (h : Awaited w) (now : Nat) (io : Io)
    (event : FileEvent) (cmd_name : String) :
    Awaited (w.write_line jsonl_string now io event cmd_name).2 ↔
      (w.Lands io (cmd_to_log_name cmd_name) → w.disk_buf = []) := by
  rw [Lands, ← get_or_open_isSome]
  rcases write_line_cases jsonl_string w now io event cmd_name with
    ⟨g, w₁, n, hg, hw, heq⟩ | ⟨g, w₁, n, hg, hw, heq⟩ | ⟨w₁, buf, hg, _, heq⟩
  · have hbuf := (get_or_open_sameBooks hg).disk_buf
    have hlands : (w.get_or_open io (cmd_to_log_name cmd_name)).1.isSome = true ∧
        ∃ n, io.write = .accepted n := ⟨by rw [hg]; rfl, n, hw⟩
    have hafter : Awaited (w.write_line jsonl_string now io event cmd_name).2 ↔
        (w.disk_buf ≠ [] → true = false) := by
      rw [heq, Awaited, ← hbuf]
      exact Iff.rfl
    rw [hafter]
    simp [hlands]
  · have hbooks := get_or_open_sameBooks hg
    refine iff_of_true ?_ fun hlands => ?_
    · rw [heq]
      intro hne
      exact hbooks.disk_healthy.trans (h (hbooks.disk_buf ▸ hne))
    · rw [hw] at hlands
      obtain ⟨_, _, hacc⟩ := hlands
      cases hacc
  · refine iff_of_true ?_ fun hlands => ?_
    · rw [heq]
      exact fun _ => rfl
    · rw [hg] at hlands
      cases hlands.1

theorem apply_awaited_iff {w : FileLogWriter} (h : Awaited w) (op : Op) :
    Awaited (w.apply jsonl_string op) ↔ LeavesNone jsonl_string w op := by
  cases op with
  | write now ios io event cmd_name =>
      have hretry : Awaited (w.retry jsonl_string now ios) ∧
          ((w.retry jsonl_string now ios).disk_buf = [] ↔
            if w.retry_due now then AllLand jsonl_string w ios w.disk_buf else w.disk_buf = []) := by
        rw [retry]
        split
        · exact flush_disk_buf_awaited w now ios
        · exact ⟨h, Iff.rfl⟩
      have hline := write_line_awaited_iff jsonl_string hretry.1 now io event cmd_name
      rw [hretry.2] at hline
      exact hline
  | retry_buf now ios => exact iff_of_true (flush_disk_buf_awaited w now ios).1 trivial
  | tick f =>
      have hbooks := flush_and_sync_sameBooks w f
      refine iff_of_true (fun hne => ?_) trivial
      exact hbooks.disk_healthy.trans (h (hbooks.disk_buf ▸ hne))
  | flush f =>
      have hbooks := flush_all_sameBooks w f
      refine iff_of_true (fun hne => ?_) trivial
      exact hbooks.disk_healthy.trans (h (hbooks.disk_buf ▸ hne))

variable (jsonl_string) in
/-- **Buffered events are awaited** in every state of a run exactly when no direct write of the run
lands past events that wait; and a write ten seconds on retries what is awaited. -/
theorem awaited_iff (log_dir : LogDir) (now : Nat) (ops : List Op) :
    ((∀ n, Awaited (Run.exec (apply jsonl_string) (new log_dir now) (ops.take n))) ↔
      Run.Guarded (apply jsonl_string) (LeavesNone jsonl_string) (new log_dir now) ops) ∧
    ∀ w : FileLogWriter, Awaited w → w.disk_buf ≠ [] → ∀ later,
      RETRY_SECS ≤ later - w.last_disk_check → w.retry_due later = true := by
  have hnew : Awaited (new log_dir now) := fun hne => absurd rfl hne
  exact ⟨Run.always_iff (P := Awaited) (fun _ op h => apply_awaited_iff h op) ops _ hnew,
    fun _ h hbuf _ hlater => h.retry_due hbuf hlater⟩

/-- The log of `sh` cannot be opened, and a second later the log of `vi` takes a line: the event of
`sh` waits, and no later write retries it. -/
theorem stranded_by_other_log :
    (Run.exec (apply sampleJsonl) (new .empty 0)
      [.write 0 (fun _ => .calm) .noOpen (sampleEvent 1) "sh",
       .write 1 (fun _ => .calm) .calm (sampleEvent 2) "vi"]).disk_buf = [(sampleEvent 1, "sh")] ∧
    (Run.exec (apply sampleJsonl) (new .empty 0)
      [.write 0 (fun _ => .calm) .noOpen (sampleEvent 1) "sh",
       .write 1 (fun _ => .calm) .calm (sampleEvent 2) "vi"]).disk_healthy = true ∧
    ¬ ∀ ops : List Op, Awaited (Run.exec (apply sampleJsonl) (new .empty 0) ops) := by
  refine ⟨by decide +kernel, by decide +kernel, fun h => ?_⟩
  have hfalse := h [.write 0 (fun _ => .calm) .noOpen (sampleEvent 1) "sh",
    .write 1 (fun _ => .calm) .calm (sampleEvent 2) "vi"] (by decide +kernel)
  exact absurd hfalse (by decide +kernel)

end

end FileLogWriter

end Fsmon
