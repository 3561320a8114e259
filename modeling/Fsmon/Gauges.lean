/-
# `Fsmon.Gauges` — the five gauges, over everything that runs

The registry is shared: the main task writes three gauges (`Fsmon.Monitor.Gauges`),
each subscriber's task takes itself off the fourth when its loop ends, and the log
writer sets the fifth whenever its buffer grows or is retried.

    Service.step     an operation of the main task, a subscriber's or the writer's
    Service.Right    every gauge is what it reports
    Service.Counts   what an operation must not do

A subscriber that goes away while its first response is written, or whose task
panics, is counted for good; the buffer is always counted.
-/
import Fsmon.Delivery
import Fsmon.Monitor.Gauges

namespace Fsmon

/-! ## The service -/

/-- A task of `subscriber_task`. -/
structure Subscriber where
  subscription : Subscription
  /-- The first response has been written, or has failed. -/
  greeted : Bool
  task : SubscriberTask

def Subscriber.live (t : Subscriber) : Bool := t.task.ending.isNone

structure Service where
  monitor : Monitor
  /-- The gauge `subscribers`. -/
  subscribers : Int
  tasks : List Subscriber
  writer : WriterTask

inductive Operation where
  /-- The main task: a command, a reload, a retry, inotify, a batch. -/
  | main (s : Monitor.Step)
  /-- `handle_subscribe`. -/
  | subscribe (s : Subscription)
  /-- The first response of a task, and whether the socket takes it. -/
  | greet (i : Nat) (sent : Bool)
  /-- One turn of a task's loop. -/
  | feed (i : Nat) (r : Recv) (sent : Bool)
  /-- A task finds the channel closed. -/
  | closed (i : Nat)
  /-- One turn of the writer's loop. -/
  | wake (w : Wake)

namespace Service

def start (monitor : Monitor) (log_dir : LogDir) (now : Nat) : Service :=
  ⟨monitor, 0, [], .start log_dir now⟩

/-- `inc_subscribers` and `dec_subscribers`. -/
def count_subscriber (s : Service) (d : Int) : Service :=
  if s.monitor.metrics.enabled then { s with subscribers := s.subscribers + d } else s

/-- A task goes on. -/
def put_task (s : Service) (i : Nat) (t : Subscriber) : Service := { s with tasks := s.tasks.set i t }

section
variable [Chrono] [Sizefilter] (local_time : Bool)

def step (s : Service) : Operation → Service
  | .main st => { s with monitor := s.monitor.step st }
  | .subscribe sub =>
      { s.count_subscriber 1 with tasks := s.tasks ++ [⟨sub, false, ⟨none, [], []⟩⟩] }
  | .greet i sent =>
      match s.tasks[i]? with
      | none => s
      | some t =>
          if t.greeted then s
          -- a write that fails ends the task here, past `dec_subscribers`
          else s.put_task i { t with greeted := true, task := .start sent }
  | .feed i r sent =>
      match s.tasks[i]? with
      | none => s
      | some t =>
          if t.greeted && t.live then
            let task := t.task.step t.subscription (r, sent)
            (if task.ending = some .disconnected then s.count_subscriber (-1) else s).put_task i
              { t with task }
          else s
  | .closed i =>
      match s.tasks[i]? with
      | none => s
      | some t =>
          if t.greeted && t.live then
            (s.count_subscriber (-1)).put_task i
              { t with task := { t.task with ending := some .disconnected } }
          else s
  | .wake w => { s with writer := s.writer.step local_time w }

/-! ## What is reported -/

omit [Chrono] [Sizefilter] in
/-- Every gauge is what it reports. -/
structure Right (s : Service) : Prop where
  monitored_paths : s.monitor.metrics.monitored_paths = s.monitor.monitored_entries.length
  pending_paths : s.monitor.metrics.pending_paths = s.monitor.inotify_state.pending_paths.length
  reader_groups : s.monitor.metrics.reader_groups = s.monitor.fanotify.groups.len
  subscribers : s.subscribers = (s.tasks.filter Subscriber.live).length
  disk_buffer_events :
    s.writer.panicked = false → s.writer.writer.disk_buffer_events = s.writer.writer.disk_buf.length

omit [Chrono] in
/-- The main task counts what it changes, every first response is taken, and no subscriber is sent a
line that cannot be made. -/
def Counts (s : Service) : Operation → Prop
  | .main st => s.monitor.Counts st
  | .greet i sent => ∀ t, s.tasks[i]? = some t → t.greeted = false → sent = true
  | .feed i r _ => ∀ t, s.tasks[i]? = some t → t.greeted = true → t.live = true →
      SubscriberTask.HasLine t.subscription r
  | _ => True

end

end Service

/-! ## The buffer of the writer -/

namespace FileLogWriter

/-- The buffer is counted. -/
def BufferCounted (w : FileLogWriter) : Prop := w.disk_buffer_events = w.disk_buf.length

variable {w : FileLogWriter}

theorem BufferCounted.same {w' : FileLogWriter} (h : w.BufferCounted) (hs : SameBooks w w') :
    w'.BufferCounted := by
  rw [BufferCounted, hs.disk_buffer_events, hs.disk_buf]
  exact h

theorem bufferCounted_write_event (jsonl_string : FileEvent → Str) (h : w.BufferCounted) (now : Nat)
    (ios : Nat → Io) (io : Io) (e : FileEvent) (cmd_name : String) :
    (w.write_event jsonl_string now ios io e cmd_name).2.BufferCounted := by
  have hretry : (w.retry jsonl_string now ios).BufferCounted := by
    rw [retry]
    split
    · rw [flush_disk_buf]
      split
      · exact h
      · rfl
    · exact h
  rw [write_event]
  generalize w.retry jsonl_string now ios = w₀ at hretry
  rcases write_line_cases jsonl_string w₀ now io e cmd_name with
    ⟨f, w₁, n, hopen, _, heq⟩ | ⟨f, w₁, n, hopen, _, heq⟩ | ⟨w₁, buf, hopen, _, heq⟩
  · have h₁ : w₁.BufferCounted := hretry.same (get_or_open_sameBooks hopen)
    rw [heq]
    exact h₁
  · have h₁ : w₁.BufferCounted := hretry.same (get_or_open_sameBooks hopen)
    rw [heq]
    exact h₁
  · rw [heq]
    rfl

end FileLogWriter

section
variable [Chrono] (local_time : Bool)

/-- While the writer lives, its buffer is counted. -/
theorem WriterTask.bufferCounted_step {t : WriterTask} (h : t.panicked = false → t.writer.BufferCounted)
    (w : Wake) : (t.step local_time w).panicked = false → (t.step local_time w).writer.BufferCounted := by
  intro hlive
  cases hp : t.panicked with
  | true =>
      rw [step_panicked local_time hp] at hlive
      rw [hp] at hlive
      cases hlive
  | false =>
      cases w with
      | tick f =>
          rw [step, hp]
          exact FileLogWriter.BufferCounted.same (w := { t.writer with dirty_logs := [] }) (h hp)
            (FileLogWriter.flush_and_sync_sameBooks t.writer f)
      | recv r now ios io =>
          cases r with
          | lagged n =>
              rw [step, hp]
              exact h hp
          | event e cmd_name =>
              cases hpanics : panics local_time t.writer now e with
              | true => simp [step, hp, hpanics] at hlive
              | false =>
                  simp only [step, hp, hpanics, Bool.false_eq_true, if_false]
                  exact FileLogWriter.bufferCounted_write_event _ (h hp) ..

/-! ## The tasks of the subscribers -/

omit [Chrono] in
/-- One task replaced by another. -/
theorem Subscriber.live_set (t' : Subscriber) : ∀ {l : List Subscriber} {i : Nat} {t : Subscriber},
    l[i]? = some t →
    ((l.set i t').filter live).length + t.live.toNat = (l.filter live).length + t'.live.toNat := by
  intro l
  induction l with
  | nil => exact fun h => by simp at h
  | cons u l ih =>
      intro i t h
      cases i with
      | zero =>
          cases h
          cases hu : u.live <;> cases ht' : t'.live <;> simp [hu, ht']
      | succ i =>
          have hrest := ih (i := i) (by simpa using h)
          cases hu : u.live <;> simp only [List.set_cons_succ, List.filter_cons, hu] <;> grind

/-- A turn of a task that is not sent a line that cannot be made: it goes on, or it breaks. -/
theorem SubscriberTask.ending_step {s : Subscription} {t : SubscriberTask} (h : t.ending = none)
    {r : Recv}
    (hline : HasLine s r) (sent : Bool) :
    (t.step s (r, sent)).ending = none ∨ (t.step s (r, sent)).ending = some .disconnected := by
  cases sent with
  | true => exact Or.inl (step_sees s h hline).1
  | false =>
      cases r with
      | lagged n => exact Or.inl (by simp [step, h])
      | event e cmd_name =>
          cases hwants : s.wants e with
          | false => exact Or.inl (by simp [step, h, hwants])
          | true =>
              have hpath := hline (e, cmd_name) rfl hwants
              rw [← FileEvent.jsonl_string_isSome s.local_time e] at hpath
              obtain ⟨line, hl⟩ := Option.isSome_iff_exists.1 hpath
              exact Or.inr (by simp [step, h, hwants, hl])

namespace Service

/-! ## One operation -/

/-- The books behind the gauges. -/
structure Balanced (s : Service) : Prop where
  monitor : s.monitor.Counted
  subscribers : s.subscribers = (s.tasks.filter Subscriber.live).length
  /-- A task whose first response is due is there. -/
  waiting : ∀ t ∈ s.tasks, t.greeted = false → t.live = true
  buffer : s.writer.panicked = false → s.writer.writer.BufferCounted

omit [Chrono] in
theorem Balanced.right {s : Service} (h : s.Balanced) : s.Right where
  monitored_paths := h.monitor.entries
  pending_paths := h.monitor.pending
  reader_groups := h.monitor.groups
  subscribers := h.subscribers
  disk_buffer_events := h.buffer

omit [Chrono] in
/-- With metrics on, a subscriber is counted. -/
theorem Balanced.count_subscriber {s : Service} (h : s.Balanced) (d : Int) :
    s.count_subscriber d = { s with subscribers := s.subscribers + d } :=
  if_pos h.monitor.reporting.enabled

omit [Chrono] in
/-- A task goes on, and the gauge follows. -/
theorem Balanced.put {s : Service} (h : s.Balanced) {i : Nat} {t u : Subscriber}
    (ht : s.tasks[i]? = some t)
    (d : Int) (hd : d + t.live.toNat = u.live.toNat) (hgreeted : u.greeted = true) :
    Balanced { s with subscribers := s.subscribers + d, tasks := s.tasks.set i u } where
  monitor := h.monitor
  buffer := h.buffer
  subscribers := by
    have hset := Subscriber.live_set u ht
    have hcount := h.subscribers
    simp only
    omega
  waiting v hv hwait := by
    rcases List.mem_or_eq_of_mem_set hv with hmem | rfl
    · exact h.waiting v hmem hwait
    · rw [hgreeted] at hwait
      cases hwait

variable [Sizefilter]

omit [Chrono] [Sizefilter] in
/-- A new task is there, and its first response is due. -/
theorem balanced_subscribe {s : Service} (h : s.Balanced) (sub : Subscription) :
    Balanced { s.count_subscriber 1 with tasks := s.tasks ++ [⟨sub, false, ⟨none, [], []⟩⟩] } := by
  rw [h.count_subscriber]
  refine ⟨h.monitor, ?_, ?_, h.buffer⟩
  · have hcount := h.subscribers
    simp only [List.filter_append, List.length_append, hcount]
    rfl
  · intro t ht hgreeted
    rcases List.mem_append.1 ht with hmem | hnew
    · exact h.waiting t hmem hgreeted
    · rw [List.mem_singleton.1 hnew]
      rfl

/-- **An operation that counts keeps the books.** -/
theorem balanced_step (s : Service) (o : Operation) (h : s.Balanced) (hcounts : s.Counts o) :
    (s.step local_time o).Balanced := by
  cases o with
  | main st => exact { h with monitor := Monitor.counted_step s.monitor st h.monitor hcounts }
  | subscribe sub => exact balanced_subscribe h sub
  | wake w => exact { h with buffer := WriterTask.bufferCounted_step local_time h.buffer w }
  | greet i sent =>
      rw [step]
      cases ht : s.tasks[i]? with
      | none => exact h
      | some t =>
          simp only
          split
          · exact h
          · next hgreeted =>
            have hgreeted : t.greeted = false := by simpa using hgreeted
            have hlive := h.waiting t (List.mem_of_getElem? ht) hgreeted
            rw [hcounts t ht hgreeted]
            have hput := h.put ht (u := { t with greeted := true, task := .start true }) 0
              (by rw [hlive]; rfl) rfl
            rw [Int.add_zero] at hput
            exact hput
  | feed i r sent =>
      rw [step]
      cases ht : s.tasks[i]? with
      | none => exact h
      | some t =>
          simp only
          split
          · next hon =>
            obtain ⟨hgreeted, hlive⟩ : t.greeted = true ∧ t.live = true := by simpa using hon
            have hending : t.task.ending = none := by simpa [Subscriber.live] using hlive
            have hline := hcounts t ht hgreeted hlive
            rcases SubscriberTask.ending_step hending hline sent with hgoes | hbreaks
            · have hput := h.put ht (u := { t with task := t.task.step t.subscription (r, sent) }) 0
                (by rw [hlive, Subscriber.live, hgoes]; rfl) hgreeted
              rw [Int.add_zero] at hput
              rw [hgoes]
              exact hput
            · rw [if_pos hbreaks, h.count_subscriber]
              exact h.put ht (u := { t with task := t.task.step t.subscription (r, sent) }) (-1)
                (by rw [hlive, Subscriber.live, hbreaks]; rfl) hgreeted
          · exact h
  | closed i =>
      rw [step]
      cases ht : s.tasks[i]? with
      | none => exact h
      | some t =>
          simp only
          split
          · next hon =>
            obtain ⟨hgreeted, hlive⟩ : t.greeted = true ∧ t.live = true := by simpa using hon
            rw [h.count_subscriber]
            exact h.put ht (u := { t with task := { t.task with ending := some .disconnected } }) (-1)
              (by rw [hlive]; rfl) hgreeted
          · exact h

end Service

/-! ## Over runs -/

variable [Sizefilter]

/-- **The gauges are right** after every operation of a run that counts. -/
theorem gauges_right {os : Os} {cfg : MonitorConfig} {m : Monitor} (h : Monitor.launch os cfg = .ok m)
    (henabled : m.metrics.enabled = true) (log_dir : LogDir) (now : Nat) (run : List Operation)
    (hrun : Run.Guarded (Service.step local_time) Service.Counts (.start m log_dir now) run) :
    (Run.exec (Service.step local_time) (.start m log_dir now) run).Right := by
  refine (Run.inv_exec (Service.balanced_step local_time) run _ ?_ hrun).right
  exact ⟨Monitor.counted_launch h henabled, rfl, fun t ht => absurd ht List.not_mem_nil, fun _ => rfl⟩

end

/-- A start with one entry and with metrics on. -/
def meteredEntry : MonitorConfig :=
  { Monitor.oneEntry ⟨none, none, false, none, none⟩ with metrics_interval := some 60 }

/-- A subscriber comes, misses an event and goes; meanwhile the entry is removed. -/
def visit (sub : Subscription) : List Operation :=
  [.subscribe sub, .greet 0 true, .feed 0 (.lagged 1) true,
    .main (.socket (.calm Monitor.nestedTree) (.remove [[0x61]] none)), .closed 0]

theorem gauges_right_visit : ∃ m,
    @Monitor.launch noSizes (.calm Monitor.nestedTree) meteredEntry = .ok m ∧
      Service.Right (@Run.exec _ _ (@Service.step stoppedClock noSizes false) (.start m .empty 0)
        (visit ⟨some "make", none, false⟩)) := by
  refine ⟨_, rfl, @gauges_right stoppedClock false noSizes (.calm Monitor.nestedTree) meteredEntry _ rfl
    rfl .empty 0 _ ?_⟩
  refine ⟨trivial, fun _ _ _ => rfl, fun _ _ _ _ q hq => ?_, ⟨rfl, trivial⟩, trivial, trivial⟩
  cases hq

/-- The first response fails: nobody is there, and one subscriber is reported. -/
theorem unwelcome_subscriber_counted : ∃ m,
    @Monitor.launch noSizes (.calm Monitor.nestedTree) meteredEntry = .ok m ∧ m.metrics.enabled = true ∧
      ¬ Service.Right (@Run.exec _ _ (@Service.step stoppedClock noSizes false) (.start m .empty 0)
        [.subscribe ⟨some "make", none, false⟩, .greet 0 false]) := by
  refine ⟨_, rfl, rfl, fun h => ?_⟩
  have hcount := h.subscribers
  revert hcount
  decide +kernel

end Fsmon
