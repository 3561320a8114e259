/-
# `Fsmon.LogWriter.Untroubled` — a writer on which nothing fails

Every open, write and flush succeeds, so nothing is ever buffered in `disk_buf`
and every log gets what is written to it, at its end and in order.

    apply_untroubled      one call
    run_untroubled        a run of calls
    finish_appended       what a new writer leaves when its channel is closed
    dropped_lines         what any writer leaves when it is dropped instead

A `BufWriter` that is dropped flushes, so the lines written so far are all on
disk at the end of a task that is cut off.
-/
import Fsmon.LogWriter.Clean

namespace Fsmon

namespace FileLogWriter

/-- Every open, write and flush of the call succeeds. -/
def Op.Succeeds : Op → Prop
  | .write _ _ io _ _ => io.open_ok = true ∧ (∃ n, io.write = .accepted n) ∧ io.evict = .done
  | .retry_buf _ _ => True
  | .tick f => ∀ p, f p = .done
  | .flush f => ∀ p, f p = .done

/-- The events handed to the log `p`. -/
def handedTo (p : LogPath) (ops : List Op) : List FileEvent :=
  ((ops.flatMap Op.handed).filter fun q => cmd_to_log_name q.2 = p).map (·.1)

/-- Nothing has failed so far. -/
structure Untroubled (w : FileLogWriter) : Prop where
  sound : Sound (fun _ => False) w
  healthy : w.disk_healthy = true
  empty : w.disk_buf = []

variable (jsonl_string : FileEvent → Str)

/-- One call that succeeds puts what it is handed at the end of its log. -/
theorem apply_untroubled {w : FileLogWriter} {op : Op} (h : Untroubled w) (hop : op.Succeeds) :
    Untroubled (w.apply jsonl_string op) ∧
      ∀ p, (w.apply jsonl_string op).stream p
        = w.stream p ++ (handedTo p [op]).map jsonl_string := by
  cases op with
  | write now ios io event cmd_name =>
      obtain ⟨hopen, ⟨n, hwrite⟩, hevict⟩ := hop
      have hfresh : (w.handles.lookup (cmd_to_log_name cmd_name)).all
          (fun h => w.log_dir.inode (cmd_to_log_name cmd_name) = some h.inode) = true := by
        cases hl : w.handles.lookup (cmd_to_log_name cmd_name) with
        | none => rfl
        | some g => simpa using h.sound.inode hl
      obtain ⟨w', he, hhealthy, hbuf, happ⟩ := CleanSys.write_appends jsonl_string now ios io
        event h.sound h.healthy hopen hwrite hevict hfresh
      have hw : w.apply jsonl_string (.write now ios io event cmd_name) = w' := congrArg Prod.snd he
      rw [hw]
      refine ⟨⟨happ.sound, hhealthy, hbuf.trans h.empty⟩, fun p => ?_⟩
      by_cases hp : cmd_to_log_name cmd_name = p
      · subst hp
        rw [happ.stream_self]
        simp [handedTo, Op.handed]
      · rw [happ.stream_ne p (Ne.symm hp)]
        simp [handedTo, Op.handed, hp]
  | retry_buf now ios =>
      have hw : w.apply jsonl_string (.retry_buf now ios) = { w with disk_healthy := true } := by
        rw [apply, flush_disk_buf, if_pos h.empty]
      rw [hw]
      exact ⟨⟨⟨h.sound.wf, h.sound.live⟩, rfl, h.empty⟩, fun p => (List.append_nil _).symm⟩
  | tick f =>
      have htrim := flush_and_sync_trims h.sound f
      have hbooks := flush_and_sync_sameBooks w f
      exact ⟨⟨htrim.sound, hbooks.disk_healthy.trans h.healthy, hbooks.disk_buf.trans h.empty⟩,
        fun p => (htrim.stream_eq hop p).trans (List.append_nil _).symm⟩
  | flush f =>
      have htrim := flush_all_trims h.sound f
      have hbooks := flush_all_sameBooks w f
      exact ⟨⟨htrim.sound, hbooks.disk_healthy.trans h.healthy, hbooks.disk_buf.trans h.empty⟩,
        fun p => (htrim.stream_eq hop p).trans (List.append_nil _).symm⟩

theorem handedTo_cons (p : LogPath) (op : Op) (ops : List Op) :
    handedTo p (op :: ops) = handedTo p [op] ++ handedTo p ops := by
  simp [handedTo]

/-- A run of calls that succeed. -/
theorem run_untroubled : ∀ (ops : List Op) {w : FileLogWriter}, Untroubled w →
    (∀ op ∈ ops, op.Succeeds) →
    Untroubled (ops.foldl (apply jsonl_string) w) ∧
      ∀ p, (ops.foldl (apply jsonl_string) w).stream p
        = w.stream p ++ (handedTo p ops).map jsonl_string := by
  intro ops
  induction ops with
  | nil =>
      intro w h _
      exact ⟨h, fun p => (List.append_nil _).symm⟩
  | cons op ops ih =>
      intro w h hops
      obtain ⟨hone, hstream⟩ := apply_untroubled jsonl_string h
        (hops op List.mem_cons_self)
      obtain ⟨hrest, hall⟩ := ih hone fun o ho => hops o (List.mem_cons_of_mem _ ho)
      refine ⟨hrest, fun p => ?_⟩
      rw [List.foldl_cons, hall, hstream, handedTo_cons p op ops, List.map_append, List.append_assoc]

/-- What a new writer has put into the log `p` when it is done. -/
theorem finish_appended {log_dir : LogDir} (hdir : log_dir.Wf) {p : LogPath}
    (hnew : log_dir.lines p = []) (now : Nat) {ops : List Op} (hops : ∀ op ∈ ops, op.Succeeds) :
    (ops.foldl (apply jsonl_string) (new log_dir now)).finish.log_dir.lines p
      = (handedTo p ops).map jsonl_string := by
  obtain ⟨h, hstream⟩ := run_untroubled jsonl_string ops
    (w := new log_dir now) ⟨new_sound hdir now, rfl, rfl⟩ hops
  rw [finish_lines h.sound, hstream, stream_new, hnew, List.nil_append]

/-! ## A writer that is dropped -/

/-- All handles are dropped, and every flush succeeds. -/
def drop_handles (w : FileLogWriter) : FileLogWriter :=
  w.handles.keys.foldl (fun w p => w.drop_handle p .done) w

/-- A loop of drops empties the buffers of its logs, and fills none. -/
theorem pending_foldl_drop (q : LogPath) : ∀ (ps : List LogPath) (w : FileLogWriter),
    q ∈ ps ∨ w.pending q = [] →
      (ps.foldl (fun w p => w.drop_handle p .done) w).pending q = [] := by
  intro ps
  induction ps with
  | nil =>
      intro w h
      exact h.resolve_left List.not_mem_nil
  | cons p ps ih =>
      intro w h
      refine ih _ ?_
      rw [pending_drop_handle]
      by_cases hq : q = p
      · exact .inr (if_pos hq)
      · rw [if_neg hq]
        exact h.imp_left fun h => (List.mem_cons.1 h).resolve_left hq

theorem drop_handles_trims {stale : LogPath → Prop} {w : FileLogWriter} (hs : Sound stale w) :
    Trims stale True w w.drop_handles :=
  foldl_trims (fun _ hs p => (drop_handle_trims hs p .done).mono fun _ => rfl) _ w hs

theorem drop_handles_sameBooks (w : FileLogWriter) : SameBooks w w.drop_handles :=
  foldl_sameBooks (fun w p => drop_handle_sameBooks w p .done) _ w

/-- A dropped writer has put every log's stream on disk. -/
theorem dropped_lines {stale : LogPath → Prop} {w : FileLogWriter} (hs : Sound stale w) (p : LogPath) :
    w.drop_handles.log_dir.lines p = w.stream p := by
  have hpending : w.drop_handles.pending p = [] := by
    refine pending_foldl_drop p _ w ?_
    cases hl : w.handles.lookup p with
    | none => exact .inr (by simp [pending, hl])
    | some h => exact .inl (AList.mem_keys.1 (AList.lookup_isSome.1 (by rw [hl]; rfl)))
  have hstream := (drop_handles_trims hs).stream_eq trivial p
  rw [stream, hpending, List.append_nil] at hstream
  exact hstream

end FileLogWriter

end Fsmon
