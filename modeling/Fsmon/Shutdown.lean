/-
# `Fsmon.Shutdown` — what is on its way when the daemon stops

Two tasks of `Monitor::run`.  The main task turns batches into records and sends
them to the broadcast channel; the writer's task takes them out one by one.  On
SIGTERM or Ctrl-C the main task empties its own channel, sends what comes of it,
drops the sender and returns.  `block_on` is over with it, and the runtime drops
the writer's task wherever it is.

    main_turn      the main task, up to its next send
    writer_turn    one turn of the loop of `FileLogWriter::run`
    teardown       the runtime is dropped, and with it every handle

The writer may take turns at any time, also between the return and the teardown,
or none.  Nothing joins it; so a shutdown keeps what was sent exactly when the
writer has emptied the channel by then, and was sent nothing that it cannot print
(`shutdown_keeps_iff`).

The broadcast channel never lags here: it holds what the writer has not received.
-/
import Fsmon.Delivery
import Fsmon.LogWriter.Untroubled
import Fsmon.Monitor.Apart
import Fsmon.Monitor.Daemon
import Fsmon.Monitor.Publish

namespace Fsmon

/-! ## The tasks -/

/-- Where the main task is. -/
inductive MainAt where
  /-- In `select!`. -/
  | waiting
  /-- In `send_pending_events`, for the loop or for `drain_remaining_events`. -/
  | sending (draining : Bool) (rest : List (FileEvent × String))
  /-- At the `try_recv` of `drain_remaining_events`. -/
  | draining
  /-- The sender is dropped and `run` has returned. -/
  | returned

structure Tasks where
  monitor : Monitor
  main : MainAt
  /-- The batches the readers have sent. -/
  event_rx : List (List DecodedEvent)
  /-- What is in the broadcast channel for the writer. -/
  channel : List (FileEvent × String)
  writer : WriterTask
  /-- The writer's loop is over. -/
  finished : Bool
  /-- The runtime has been dropped. -/
  exited : Bool
  /-- What has been sent to the broadcast channel (a history variable). -/
  sent : List (FileEvent × String)

/-- What happens next. -/
inductive Turn where
  /-- A reader sends a batch. -/
  | read (events : List DecodedEvent)
  /-- The main task goes on. -/
  | main (os : Nat → Os) (current : Nat → Option Tracked)
  /-- Another branch of `select!` fires. -/
  | branch (s : Monitor.Step)
  /-- SIGTERM or Ctrl-C. -/
  | signal
  /-- The writer polls its receiver. -/
  | recv (now : Nat) (ios : Nat → Io) (io : Io)
  /-- The writer's timer fires. -/
  | tick (f : LogPath → Flush)
  /-- The runtime is dropped, if the main task has returned. -/
  | teardown

namespace Tasks

def start (monitor : Monitor) (log_dir : LogDir) (now : Nat) : Tasks :=
  ⟨monitor, .waiting, [], [], .start log_dir now, false, false, []⟩

section
variable [Sizefilter]

/-- Take a batch out of `event_rx`: process it, patch it, and start to send. -/
def receive (draining : Bool) (os : Nat → Os) (current : Nat → Option Tracked) (t : Tasks) : Tasks :=
  match t.event_rx with
  | [] => t
  | events :: rest =>
      let (monitor, pending) := t.monitor.process_event_batch os events
      { t with
        monitor
        event_rx := rest
        main := .sending draining (Monitor.published current pending) }

/-- The main task, up to its next send. -/
def main_turn (os : Nat → Os) (current : Nat → Option Tracked) (t : Tasks) : Tasks :=
  match t.main with
  | .waiting => t.receive false os current
  | .sending draining (q :: rest) =>
      { t with main := .sending draining rest, channel := t.channel ++ [q], sent := t.sent ++ [q] }
  | .sending false [] => { t with main := .waiting, monitor := t.monitor.check_pending (os 0) }
  | .sending true [] => { t with main := .draining }
  | .draining =>
      match t.event_rx with
      | [] => { t with main := .returned }
      | _ :: _ => t.receive true os current
  | .returned => t

/-- The branches of `select!` that send nothing: a reload, inotify, a command. -/
def is_branch : Monitor.Step → Bool
  | .reload _ _ | .inotify _ _ | .socket _ _ => true
  | _ => false

end

section
variable [Chrono] (local_time : Bool)

/-- One turn of the writer's loop; a task that is over, or has panicked, takes none. -/
def writer_turn (wake : Nat × (Nat → Io) × Io) (t : Tasks) : Tasks :=
  if t.finished || t.writer.panicked then t
  else
    match t.channel with
    | q :: rest =>
        { t with
          channel := rest
          writer := t.writer.step local_time (.recv (.event q.1 q.2) wake.1 wake.2.1 wake.2.2) }
    | [] =>
        match t.main with
        -- `RecvError::Closed`: the last flush, and the loop is over
        | .returned => { t with writer := { t.writer with writer := t.writer.writer.finish }, finished := true }
        | _ => t

/-- The writer's timer fires. -/
def tick_turn (f : LogPath → Flush) (t : Tasks) : Tasks :=
  if t.finished then t else { t with writer := t.writer.step local_time (.tick f) }

omit [Chrono] in
/-- The runtime is dropped: the writer's task is, and its handles with it. -/
def teardown (t : Tasks) : Tasks :=
  match t.main with
  | .returned => { t with writer := { t.writer with writer := t.writer.writer.drop_handles }, exited := true }
  | _ => t

variable [Sizefilter]

def step (t : Tasks) (a : Turn) : Tasks :=
  if t.exited then t
  else
    match a with
    | .read events => { t with event_rx := t.event_rx ++ [events] }
    | .main os current => t.main_turn os current
    | .branch s =>
        match t.main with
        | .waiting => if is_branch s then { t with monitor := t.monitor.step s } else t
        | _ => t
    | .signal =>
        match t.main with
        | .waiting => { t with main := .draining }
        | _ => t
    | .recv now ios io => t.writer_turn local_time (now, ios, io)
    | .tick f => t.tick_turn local_time f
    | .teardown => t.teardown

end

end Tasks

/-- No open, write or flush of the turn fails. -/
def Turn.Succeeds : Turn → Prop
  | .recv _ _ io => io.open_ok = true ∧ (∃ n, io.write = .accepted n) ∧ io.evict = .done
  | .tick f => ∀ p, f p = .done
  | _ => True

/-! ## What is written -/

namespace Tasks

section
variable [Chrono] (local_time : Bool)

omit [Chrono] in
/-- The events of a log. -/
def to_log (p : LogPath) (sent : List (FileEvent × String)) : List FileEvent :=
  (sent.filter fun q => cmd_to_log_name q.2 = p).map (·.1)

/-- When the process has exited, each log has grown by the lines of what was sent to it. -/
def Kept (log_dir : LogDir) (t : Tasks) : Prop :=
  t.exited = true → ∀ p, (t.writer.writer.log_dir.lines p).map some =
    (log_dir.lines p).map some ++ (to_log p t.sent).map (·.jsonl_string local_time)

omit [Chrono] in
/-- When the runtime is dropped, the writer has received all that was sent, and all of it can be
printed. -/
def CaughtUp (t : Tasks) : Turn → Prop
  | .teardown => t.exited = false → t.main = .returned →
      t.channel = [] ∧ ∀ q ∈ t.sent, q.1.has_utf8_path = true
  | _ => True

/-- The writer has written what it has received, and receives in the order of sending. -/
structure InStep (log_dir : LogDir) (w : WriterTask) (channel sent : List (FileEvent × String)) :
    Prop where
  untroubled : w.writer.Untroubled
  stream : ∀ p, w.writer.stream p =
    log_dir.lines p ++ (to_log p w.processed).map (WriterTask.line local_time)
  received : w.processed <+: sent
  printed : ∀ q ∈ w.processed, q.1.has_utf8_path = true
  alive : w.panicked = false → sent = w.processed ++ channel
  dead : w.panicked = true → ∃ q ∈ sent, q.1.has_utf8_path = false

variable {local_time} {log_dir : LogDir} {w : WriterTask} {channel sent : List (FileEvent × String)}

theorem inStep_start (hd : log_dir.Wf) (now : Nat) :
    InStep local_time log_dir (.start log_dir now) [] [] where
  untroubled := ⟨FileLogWriter.new_sound hd now, rfl, rfl⟩
  stream p := (FileLogWriter.stream_new log_dir now p).trans (List.append_nil _).symm
  received := List.prefix_rfl
  printed q hq := by cases hq
  alive _ := rfl
  dead h := by cases h

/-- The main task sends an event. -/
theorem InStep.send (h : InStep local_time log_dir w channel sent) (q : FileEvent × String) :
    InStep local_time log_dir w (channel ++ [q]) (sent ++ [q]) where
  untroubled := h.untroubled
  stream := h.stream
  received := h.received.trans (List.prefix_append ..)
  printed := h.printed
  alive hlive := by rw [h.alive hlive, List.append_assoc]
  dead hdead := by
    obtain ⟨r, hr, hbad⟩ := h.dead hdead
    exact ⟨r, List.mem_append_left _ hr, hbad⟩

/-- A call on the writer that hands it nothing. -/
theorem InStep.quiet (h : InStep local_time log_dir w channel sent) {w' : FileLogWriter}
    (hw : w'.Untroubled) (hstream : ∀ p, w'.stream p = w.writer.stream p) :
    InStep local_time log_dir { w with writer := w' } channel sent where
  untroubled := hw
  stream p := (hstream p).trans (h.stream p)
  received := h.received
  printed := h.printed
  alive := h.alive
  dead := h.dead

theorem InStep.call (h : InStep local_time log_dir w channel sent) (op : FileLogWriter.Op)
    (hop : op.Succeeds) (hnone : ∀ p, FileLogWriter.handedTo p [op] = []) :
    InStep local_time log_dir
      { w with writer := w.writer.apply (WriterTask.line local_time) op } channel sent := by
  obtain ⟨hw, hstream⟩ := FileLogWriter.apply_untroubled (WriterTask.line local_time) h.untroubled hop
  refine h.quiet hw fun p => (hstream p).trans ?_
  rw [hnone p]
  exact List.append_nil _

/-- The writer takes an event out of the channel, and writes it or panics. -/
theorem InStep.recv {q : FileEvent × String} (h : InStep local_time log_dir w (q :: channel) sent)
    (hlive : w.panicked = false) (now : Nat) (ios : Nat → Io) {io : Io}
    (hio : io.open_ok = true ∧ (∃ n, io.write = .accepted n) ∧ io.evict = .done) :
    InStep local_time log_dir (w.step local_time (.recv (.event q.1 q.2) now ios io)) channel sent := by
  have hclean : w.Clean := ⟨hlive, fun r hr => by rw [h.untroubled.empty] at hr; cases hr⟩
  have hsent : sent = w.processed ++ q :: channel := h.alive hlive
  cases hq : q.1.has_utf8_path with
  | false =>
      have hstep : w.step local_time (.recv (.event q.1 q.2) now ios io) = { w with panicked := true } := by
        simp [WriterTask.step, hlive, WriterTask.panics_eq local_time hclean, hq]
      rw [hstep]
      refine ⟨h.untroubled, h.stream, h.received, h.printed, fun hf => (by cases hf), fun _ => ?_⟩
      exact ⟨q, by rw [hsent]; exact List.mem_append_right _ List.mem_cons_self, hq⟩
  | true =>
      have hop : (FileLogWriter.Op.write now ios io q.1 q.2).Succeeds := hio
      obtain ⟨hw, hstream⟩ := FileLogWriter.apply_untroubled (WriterTask.line local_time) h.untroubled hop
      have hstep : w.step local_time (.recv (.event q.1 q.2) now ios io) =
          { w with
            writer := w.writer.apply (WriterTask.line local_time) (.write now ios io q.1 q.2)
            processed := w.processed ++ [q] } := by
        simp [WriterTask.step, hlive, WriterTask.panics_eq local_time hclean, hq, FileLogWriter.apply]
      rw [hstep]
      have hsplit : sent = (w.processed ++ [q]) ++ channel := by rw [hsent, List.append_assoc]; rfl
      refine ⟨hw, fun p => ?_, ⟨channel, hsplit.symm⟩, ?_, fun _ => hsplit, fun hf => ?_⟩
      · rw [hstream p, h.stream p, List.append_assoc, ← List.map_append]
        congr 2
        simp [to_log, FileLogWriter.handedTo, FileLogWriter.Op.handed]
      · intro r hr
        rcases List.mem_append.1 hr with hr | hr
        · exact h.printed r hr
        · rw [List.mem_singleton.1 hr]
          exact hq
      · rw [hlive] at hf
        cases hf

/-- The loop's end: the last flush. -/
theorem InStep.finish (h : InStep local_time log_dir w channel sent) :
    InStep local_time log_dir { w with writer := w.writer.finish } channel sent :=
  (h.call (.tick fun _ => .done) (fun _ => rfl) fun _ => rfl).call
    (.flush fun _ => .done) (fun _ => rfl) fun _ => rfl

/-- The task is dropped. -/
theorem InStep.drop (h : InStep local_time log_dir w channel sent) :
    InStep local_time log_dir { w with writer := w.writer.drop_handles } channel sent ∧
      ∀ p, w.writer.drop_handles.log_dir.lines p = w.writer.stream p := by
  have htrims := FileLogWriter.drop_handles_trims h.untroubled.sound
  have hbooks := FileLogWriter.drop_handles_sameBooks w.writer
  exact ⟨h.quiet ⟨htrims.sound, hbooks.disk_healthy.trans h.untroubled.healthy,
      hbooks.disk_buf.trans h.untroubled.empty⟩ (htrims.stream_eq trivial),
    FileLogWriter.dropped_lines h.untroubled.sound⟩

omit [Chrono] in
/-- What has been received is all that was sent, if no log lacks anything. -/
theorem eq_of_to_log {received sent : List (FileEvent × String)} (hr : received <+: sent)
    (h : ∀ p, (to_log p sent).length = (to_log p received).length) : received = sent := by
  obtain ⟨rest, rfl⟩ := hr
  cases rest with
  | nil => exact (List.append_nil _).symm
  | cons q rest =>
      have hq := h (cmd_to_log_name q.2)
      simp [to_log] at hq

/-- The lines of events that can be printed. -/
theorem map_line {l : List FileEvent} (h : ∀ e ∈ l, e.has_utf8_path = true) :
    (l.map (WriterTask.line local_time)).map some = l.map (·.jsonl_string local_time) := by
  rw [List.map_map]
  refine List.map_congr_left fun e he => ?_
  have hsome := h e he
  rw [← FileEvent.jsonl_string_isSome local_time e] at hsome
  obtain ⟨line, hline⟩ := Option.isSome_iff_exists.1 hsome
  simp [WriterTask.line, hline]

/-- When the task is dropped, every log has what was sent to it exactly when the writer has caught up. -/
theorem InStep.written_iff (h : InStep local_time log_dir w channel sent) :
    (∀ p, (w.writer.stream p).map some =
        (log_dir.lines p).map some ++ (to_log p sent).map (·.jsonl_string local_time)) ↔
      channel = [] ∧ ∀ q ∈ sent, q.1.has_utf8_path = true := by
  have hlines : ∀ p, (w.writer.stream p).map some =
      (log_dir.lines p).map some ++ (to_log p w.processed).map (·.jsonl_string local_time) := by
    intro p
    rw [h.stream p, List.map_append, map_line]
    intro e he
    obtain ⟨q, hq, rfl⟩ := List.mem_map.1 he
    exact h.printed q (List.mem_filter.1 hq).1
  constructor
  · intro hall
    have hsame : w.processed = sent := by
      refine eq_of_to_log h.received fun p => ?_
      have hp := List.append_cancel_left ((hlines p).symm.trans (hall p))
      simpa using (congrArg List.length hp).symm
    have hprinted : ∀ q ∈ sent, q.1.has_utf8_path = true := by
      rw [← hsame]
      exact h.printed
    cases hw : w.panicked with
    | true =>
        obtain ⟨q, hq, hbad⟩ := h.dead hw
        rw [hprinted q hq] at hbad
        cases hbad
    | false =>
        have hsent := h.alive hw
        rw [hsame] at hsent
        exact ⟨List.append_cancel_left (hsent.symm.trans (List.append_nil _).symm), hprinted⟩
  · rintro ⟨rfl, hprinted⟩ p
    have hw : w.panicked = false := by
      cases hw : w.panicked with
      | false => rfl
      | true =>
          obtain ⟨q, hq, hbad⟩ := h.dead hw
          rw [hprinted q hq] at hbad
          cases hbad
    rw [hlines p, h.alive hw, List.append_nil]

/-! ## Runs -/

variable (local_time) (log_dir)

/-- The writer's task against the channel and what was sent. -/
def Sync (t : Tasks) : Prop := InStep local_time log_dir t.writer t.channel t.sent

variable {local_time} {log_dir}

theorem writer_turn_sync {t : Tasks} (h : t.Sync local_time log_dir) (now : Nat) (ios : Nat → Io) {io : Io}
    (hio : io.open_ok = true ∧ (∃ n, io.write = .accepted n) ∧ io.evict = .done) :
    (t.writer_turn local_time (now, ios, io)).Sync local_time log_dir := by
  rw [writer_turn]
  split
  · exact h
  · next hgo =>
    have hlive : t.writer.panicked = false := by
      cases hp : t.writer.panicked with
      | false => rfl
      | true => simp [hp] at hgo
    cases hchannel : t.channel with
    | cons q rest =>
        rw [Sync, hchannel] at h
        exact h.recv hlive now ios hio
    | nil =>
        cases t.main with
        | returned =>
            rw [Sync, hchannel] at h
            exact InStep.finish h
        | waiting | sending _ _ | draining => exact h

theorem tick_turn_sync {t : Tasks} (h : t.Sync local_time log_dir) {f : LogPath → Flush}
    (hf : ∀ p, f p = .done) : (t.tick_turn local_time f).Sync local_time log_dir := by
  rw [tick_turn]
  split
  · exact h
  · cases hp : t.writer.panicked with
    | true =>
        rw [WriterTask.step_panicked local_time hp]
        exact h
    | false =>
        have hstep : t.writer.step local_time (.tick f) =
            { t.writer with writer := t.writer.writer.apply (WriterTask.line local_time) (.tick f) } := by
          simp [WriterTask.step, hp, FileLogWriter.apply]
        rw [hstep]
        exact InStep.call h (.tick f) hf fun _ => rfl

section
variable [Sizefilter]

theorem receive_sync {t : Tasks} (h : t.Sync local_time log_dir) (draining : Bool) (os : Nat → Os)
    (current : Nat → Option Tracked) : (t.receive draining os current).Sync local_time log_dir := by
  rw [receive]
  cases t.event_rx with
  | nil => exact h
  | cons events rest => exact h

theorem main_turn_sync {t : Tasks} (h : t.Sync local_time log_dir) (os : Nat → Os)
    (current : Nat → Option Tracked) : (t.main_turn os current).Sync local_time log_dir := by
  rw [main_turn]
  cases t.main with
  | waiting => exact receive_sync h false os current
  | sending draining rest =>
      cases rest with
      | cons q rest => exact InStep.send h q
      | nil =>
          cases draining with
          | false => exact h
          | true => exact h
  | draining =>
      cases t.event_rx with
      | nil => exact h
      | cons events rest => exact receive_sync h true os current
  | returned => exact h

/-- Every turn that succeeds keeps the writer in step. -/
theorem step_sync {t : Tasks} (h : t.Sync local_time log_dir) {a : Turn} (ha : a.Succeeds) :
    (t.step local_time a).Sync local_time log_dir := by
  rw [step.eq_def]
  split
  · exact h
  · cases a with
    | read events => exact h
    | main os current => exact main_turn_sync h os current
    | branch s =>
        cases t.main with
        | waiting =>
            simp only
            split
            · exact h
            · exact h
        | sending _ _ | draining | returned => exact h
    | signal =>
        cases t.main with
        | waiting | sending _ _ | draining | returned => exact h
    | recv now ios io => exact writer_turn_sync h now ios ha
    | tick f => exact tick_turn_sync h ha
    | teardown =>
        simp only [teardown]
        cases t.main with
        | returned => exact (InStep.drop h).1
        | waiting | sending _ _ | draining => exact h

variable (local_time) in
theorem teardown_step {t : Tasks} (h : t.exited = false) (hmain : t.main = .returned) :
    t.step local_time .teardown =
      { t with writer := { t.writer with writer := t.writer.writer.drop_handles }, exited := true } := by
  simp [step.eq_def, h, teardown, hmain]

variable (local_time) in
/-- Only the drop of the runtime ends the process, after the main task has returned. -/
theorem exited_step {t : Tasks} (h : t.exited = false) (a : Turn) :
    (t.step local_time a).exited = false ∨ a = .teardown ∧ t.main = .returned := by
  rw [step.eq_def, if_neg (by rw [h]; exact Bool.false_ne_true)]
  cases a with
  | read events => exact .inl h
  | main os current =>
      refine .inl ?_
      simp only [main_turn]
      have hreceive : ∀ draining, (t.receive draining os current).exited = false := by
        intro draining
        rw [receive]
        cases t.event_rx with
        | nil => exact h
        | cons events rest => exact h
      cases t.main with
      | waiting => exact hreceive false
      | sending draining rest =>
          cases rest with
          | cons q rest => exact h
          | nil =>
              cases draining with
              | false => exact h
              | true => exact h
      | draining =>
          cases hrx : t.event_rx with
          | nil => exact h
          | cons events rest => exact hreceive true
      | returned => exact h
  | branch s =>
      refine .inl ?_
      cases t.main with
      | waiting =>
          simp only
          split
          · exact h
          · exact h
      | sending _ _ | draining | returned => exact h
  | signal =>
      refine .inl ?_
      cases t.main with
      | waiting | sending _ _ | draining | returned => exact h
  | recv now ios io =>
      refine .inl ?_
      simp only [writer_turn]
      split
      · exact h
      · cases t.channel with
        | cons q rest => exact h
        | nil =>
            cases t.main with
            | waiting | sending _ _ | draining | returned => exact h
  | tick f =>
      refine .inl ?_
      simp only [tick_turn]
      split
      · exact h
      · exact h
  | teardown =>
      by_cases hmain : t.main = .returned
      · exact .inr ⟨rfl, hmain⟩
      · refine .inl ?_
        simp only [teardown]
        exact h

/-- One turn: what was sent is kept unless the runtime is dropped too early. -/
theorem step_kept {t : Tasks} (h : t.Sync local_time log_dir) (a : Turn) :
    (t.step local_time a).Kept local_time log_dir ↔ t.Kept local_time log_dir ∧ t.CaughtUp a := by
  cases hex : t.exited with
  | true =>
      have hstep : t.step local_time a = t := if_pos hex
      have hok : t.CaughtUp a := by
        cases a with
        | teardown =>
            intro hf
            rw [hex] at hf
            cases hf
        | read _ | main _ _ | branch _ | signal | recv _ _ _ | tick _ => trivial
      rw [hstep]
      exact (and_iff_left hok).symm
  | false =>
      have hkept : t.Kept local_time log_dir := by
        intro hf
        rw [hex] at hf
        cases hf
      rw [and_iff_right hkept]
      rcases exited_step local_time hex a with hstill | ⟨rfl, hmain⟩
      · have hok : t.CaughtUp a := by
          cases a with
          | teardown =>
              intro _ hmain
              rw [teardown_step local_time hex hmain] at hstill
              cases hstill
          | read _ | main _ _ | branch _ | signal | recv _ _ _ | tick _ => exact True.intro
        refine iff_of_true (fun hf => ?_) hok
        rw [hstill] at hf
        cases hf
      · obtain ⟨_, hlines⟩ := InStep.drop h
        rw [teardown_step local_time hex hmain]
        constructor
        · intro hall _ _
          refine (InStep.written_iff h).1 fun p => ?_
          rw [← hlines p]
          exact hall rfl p
        · intro hok _ p
          have hp := (InStep.written_iff h).2 (hok hex hmain) p
          rw [← hlines p] at hp
          exact hp

variable (local_time) in
/-- **A shutdown keeps what was sent** exactly when the writer has received all of it before the runtime is
dropped, and none of it is an event without a line. -/
theorem shutdown_keeps_iff (hd : log_dir.Wf) (m : Monitor) (now : Nat) (turns : List Turn)
    (hio : ∀ a ∈ turns, a.Succeeds) :
    (Run.exec (step local_time) (start m log_dir now) turns).Kept local_time log_dir ↔
      Run.Guarded (step local_time) CaughtUp (start m log_dir now) turns := by
  have hstart : (start m log_dir now).Kept local_time log_dir := fun h => by cases h
  have hinv : ∀ (t : Tasks) (a : Turn), t.Sync local_time log_dir → a.Succeeds →
      (t.step local_time a).Sync local_time log_dir := fun _ _ h ha => step_sync h ha
  rw [Run.exec_iff hinv (fun _ a h _ => step_kept h a) turns (start m log_dir now)
    (inStep_start hd now)
    (Run.Guarded.of_mem hio _)]
  exact and_iff_right hstart

end

end

/-- SIGTERM comes with a batch in the channel of the main task: it is drained and sent. -/
def stopWithBatch (events : List DecodedEvent) : List Turn :=
  [.read events, .signal, .main (fun _ => .calm Monitor.deepTree) fun _ => none,
    .main (fun _ => .calm Monitor.deepTree) fun _ => none, .main (fun _ => .calm Monitor.deepTree) fun _ => none,
    .main (fun _ => .calm Monitor.deepTree) fun _ => none]

theorem stopWithBatch_succeeds (events : List DecodedEvent) : ∀ a ∈ stopWithBatch events, a.Succeeds := by
  intro a ha
  simp only [stopWithBatch, List.mem_cons, List.not_mem_nil, or_false] at ha
  rcases ha with rfl | rfl | rfl | rfl | rfl | rfl <;> exact True.intro

/-- The writer takes a turn before the runtime is dropped. -/
def stopInTime : List Turn :=
  stopWithBatch [Monitor.onFile FAN_CREATE] ++ [.recv 0 (fun _ => .calm) .calm, .teardown]

/-- Nobody waits for the writer. -/
def stopTooEarly : List Turn := stopWithBatch [Monitor.onFile FAN_CREATE] ++ [.teardown]

theorem shutdown_keeps_in_time : ∃ m,
    @Monitor.add_path noSizes (.calm Monitor.deepTree) .idle Monitor.innerEntry = .ok m ∧
      @Kept stoppedClock false .empty
        (@Run.exec _ _ (@step stoppedClock false noSizes) (start m .empty 0) stopInTime) := by
  refine ⟨_, rfl, (@shutdown_keeps_iff stoppedClock false .empty noSizes LogDir.empty_wf _ 0 _ ?_).2 ?_⟩
  · intro a ha
    rcases List.mem_append.1 ha with ha | ha
    · exact stopWithBatch_succeeds _ a ha
    · rcases List.mem_pair.1 ha with rfl | rfl
      · exact ⟨rfl, ⟨0, rfl⟩, rfl⟩
      · exact True.intro
  · refine ⟨trivial, trivial, trivial, trivial, trivial, trivial, trivial, fun _ _ => ⟨rfl, ?_⟩, trivial⟩
    decide +kernel

/-- The event of the last batch is sent, and is in no log. -/
theorem shutdown_loses : ∃ m,
    @Monitor.add_path noSizes (.calm Monitor.deepTree) .idle Monitor.innerEntry = .ok m ∧
      ¬ @Kept stoppedClock false .empty
        (@Run.exec _ _ (@step stoppedClock false noSizes) (start m .empty 0) stopTooEarly) := by
  refine ⟨_, rfl, fun h => ?_⟩
  have hlog := congrArg List.length (h rfl (cmd_to_log_name CMD_GLOBAL))
  revert hlog
  decide +kernel

end Tasks

end Fsmon
