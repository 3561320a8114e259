/-
# `Fsmon.Delivery` — the two readers of the broadcast stream

`FileLogWriter::run` and `subscriber_task`: each takes the events of the stream
one after the other and turns them into lines.  A line that cannot be made
panics, and a panic ends the task; nobody restarts it.

    WriterTask.step       an event, a lag, or the one-second tick
    SubscriberTask.step   an event or a lag, and whether the socket takes the line

`writer_processes_iff` and `subscriber_processes_iff` say for which streams a
task never panics; what it has processed by then is a history variable.
-/
import Fsmon.Jsonl
import Fsmon.LogWriter
import Fsmon.Monitor.Events
import Fsmon.Lib.Run

namespace Fsmon

/-- What `rx.recv()` returns while the channel is open. -/
inductive Recv where
  | event (event : FileEvent) (cmd_name : String)
  | lagged (n : Nat)

def Recv.event? : Recv → Option (FileEvent × String)
  | .event e cmd_name => some (e, cmd_name)
  | .lagged _ => none

section
variable [Chrono]

/-! ## The log writer -/

/-- What wakes the loop of `run`, with what the operating system answers. -/
inductive Wake where
  | recv (r : Recv) (now : Nat) (ios : Nat → Io) (io : Io)
  | tick (f : LogPath → Flush)

def Wake.event? : Wake → Option (FileEvent × String)
  | .recv r _ _ _ => r.event?
  | .tick _ => none

/-- The task of `FileLogWriter::run`. -/
structure WriterTask where
  writer : FileLogWriter
  panicked : Bool
  /-- The events `write_event` has returned for, in order. -/
  processed : List (FileEvent × String)

namespace WriterTask

/-- The line of an event that has one. -/
def line (local_time : Bool) (e : FileEvent) : Str := (e.jsonl_string local_time).getD []

/-- `write_event` asks for a line that cannot be made: of the event, or of a buffered one when the
retry of the buffer is due. -/
def panics (local_time : Bool) (w : FileLogWriter) (now : Nat) (e : FileEvent) : Bool :=
  (w.retry_due now && w.disk_buf.any fun q => (q.1.jsonl_string local_time).isNone) ||
    (e.jsonl_string local_time).isNone

/-- One turn of the loop; after a panic there is none. -/
def step (local_time : Bool) (t : WriterTask) (wake : Wake) : WriterTask :=
  if t.panicked then t
  else
    match wake with
    | .recv (.event e cmd_name) now ios io =>
        if panics local_time t.writer now e then { t with panicked := true }
        else
          { t with
            writer := (t.writer.write_event (line local_time) now ios io e cmd_name).2
            processed := t.processed ++ [(e, cmd_name)] }
    | .recv (.lagged _) _ _ _ => t
    | .tick f => { t with writer := t.writer.flush_and_sync_dirty_logs f }

def start (log_dir : LogDir) (now : Nat) : WriterTask := ⟨.new log_dir now, false, []⟩

/-- The task has seen every event of these and is still there. -/
def SeenAll (t : WriterTask) (wakes : List Wake) : Prop :=
  t.panicked = false ∧ t.processed = wakes.filterMap Wake.event?

end WriterTask

/-! ### What is buffered has been handed over -/

namespace FileLogWriter

omit [Chrono] in
theorem mem_retry_loop {jsonl_string : FileEvent → Str} {q : FileEvent × String} :
    ∀ (todo remaining : List (FileEvent × String)) (w : FileLogWriter) (ios : Nat → Io),
      q ∈ (retry_loop jsonl_string w ios remaining todo).1 → q ∈ remaining ∨ q ∈ todo := by
  intro todo
  induction todo with
  | nil =>
      intro _ _ _ h
      exact Or.inl h
  | cons p todo ih =>
      intro remaining w ios h
      rw [retry_loop] at h
      generalize w.retry_one jsonl_string (ios 0) p = r at h
      rcases ih _ _ _ h with hrem | htodo
      · split at hrem
        · exact Or.inl hrem
        · rcases List.mem_append.1 hrem with hrem | hp
          · exact Or.inl hrem
          · exact Or.inr (List.mem_singleton.1 hp ▸ List.mem_cons_self)
      · exact Or.inr (List.mem_cons_of_mem _ htodo)

omit [Chrono] in
theorem mem_disk_buf_retry {jsonl_string : FileEvent → Str} {w : FileLogWriter} {now : Nat}
    {ios : Nat → Io} {q : FileEvent × String}
    (h : q ∈ (w.retry jsonl_string now ios).disk_buf) : q ∈ w.disk_buf := by
  unfold retry flush_disk_buf at h
  split at h
  · split at h
    · exact h
    · exact (mem_retry_loop _ _ _ _ h).resolve_left List.not_mem_nil
  · exact h

omit [Chrono] in
/-- Only the event that is written joins the buffer. -/
theorem mem_disk_buf_write_event {jsonl_string : FileEvent → Str} {w : FileLogWriter} {now : Nat}
    {ios : Nat → Io} {io : Io} {e : FileEvent} {cmd_name : String} {q : FileEvent × String}
    (h : q ∈ (w.write_event jsonl_string now ios io e cmd_name).2.disk_buf) :
    q ∈ w.disk_buf ∨ q = (e, cmd_name) := by
  rw [write_event] at h
  generalize hretry : w.retry jsonl_string now ios = w₀ at h
  have hkeep : ∀ q, q ∈ w₀.disk_buf → q ∈ w.disk_buf := by
    intro q hq
    rw [← hretry] at hq
    exact mem_disk_buf_retry hq
  rcases write_line_cases jsonl_string w₀ now io e cmd_name with
    ⟨b, w₁, n, hopen, _, heq⟩ | ⟨b, w₁, n, hopen, _, heq⟩ | ⟨w₁, buf, hopen, hbuf, heq⟩
  · rw [heq] at h
    exact Or.inl (hkeep q ((get_or_open_sameBooks hopen).disk_buf ▸ h))
  · rw [heq] at h
    exact Or.inl (hkeep q ((get_or_open_sameBooks hopen).disk_buf ▸ h))
  · rw [heq] at h
    have hq : q ∈ buf := h
    rw [hbuf, (get_or_open_sameBooks hopen).disk_buf] at hq
    split at hq
    · rcases List.mem_append.1 hq with hq | hq
      · exact Or.inl (hkeep q hq)
      · exact Or.inr (List.mem_singleton.1 hq)
    · exact Or.inl (hkeep q hq)

end FileLogWriter

namespace WriterTask

variable (local_time : Bool)

/-- A task that is alive has only UTF-8 paths in its buffer. -/
def Clean (t : WriterTask) : Prop :=
  t.panicked = false ∧ ∀ q ∈ t.writer.disk_buf, q.1.has_utf8_path = true

theorem panics_eq {t : WriterTask} (h : t.Clean) (now : Nat) (e : FileEvent) :
    panics local_time t.writer now e = !e.has_utf8_path := by
  have hnone : ∀ e : FileEvent, (e.jsonl_string local_time).isNone = !e.has_utf8_path := by
    intro e
    rw [← FileEvent.jsonl_string_isSome local_time e]
    cases e.jsonl_string local_time <;> rfl
  have hbuf : (t.writer.disk_buf.any fun q => (q.1.jsonl_string local_time).isNone) = false := by
    rw [List.any_eq_false]
    intro q hq
    rw [hnone, h.2 q hq]
    simp
  rw [panics, hbuf, Bool.and_false, Bool.false_or, hnone]

/-- One wake-up of a clean task: an event is processed, unless its path is not UTF-8. -/
theorem step_clean {t : WriterTask} (h : t.Clean) (wake : Wake)
    (hok : ∀ q, wake.event? = some q → q.1.has_utf8_path = true) :
    (t.step local_time wake).Clean ∧
      (t.step local_time wake).processed = t.processed ++ wake.event?.toList := by
  unfold step
  rw [if_neg (by rw [h.1]; exact Bool.false_ne_true)]
  cases wake with
  | tick f =>
      refine ⟨⟨h.1, fun q hq => h.2 q ?_⟩, (List.append_nil _).symm⟩
      exact (FileLogWriter.flush_and_sync_sameBooks t.writer f).disk_buf ▸ hq
  | recv r now ios io =>
      cases r with
      | lagged n => exact ⟨h, (List.append_nil _).symm⟩
      | event e cmd_name =>
          have he : e.has_utf8_path = true := hok (e, cmd_name) rfl
          simp only [panics_eq local_time h, he, Bool.not_true, Bool.false_eq_true, if_false]
          refine ⟨⟨h.1, fun q hq => ?_⟩, rfl⟩
          rcases FileLogWriter.mem_disk_buf_write_event hq with hq | rfl
          · exact h.2 q hq
          · exact he

/-- A path that is not UTF-8 ends a clean task. -/
theorem step_panics {t : WriterTask} (h : t.Clean) {wake : Wake} {q : FileEvent × String}
    (hq : wake.event? = some q) (hbad : q.1.has_utf8_path = false) :
    (t.step local_time wake).panicked = true := by
  unfold step
  rw [if_neg (by rw [h.1]; exact Bool.false_ne_true)]
  cases wake with
  | tick f => cases hq
  | recv r now ios io =>
      cases r with
      | lagged n => cases hq
      | event e cmd_name =>
          cases hq
          simp only [panics_eq local_time h, hbad, Bool.not_false, if_true]

theorem step_panicked {t : WriterTask} (h : t.panicked = true) (wake : Wake) :
    t.step local_time wake = t := if_pos h

theorem panicked_run : ∀ (wakes : List Wake) {t : WriterTask}, t.panicked = true →
    (Run.exec (step local_time) t wakes).panicked = true := by
  intro wakes
  induction wakes with
  | nil =>
      intro _ h
      exact h
  | cons wake wakes ih =>
      intro _ h
      rw [Run.exec_cons, step_panicked local_time h]
      exact ih h

/-- From a clean task, a run sees all events exactly when their paths are UTF-8. -/
theorem run_iff : ∀ (wakes : List Wake) {t : WriterTask}, t.Clean →
    ((Run.exec (step local_time) t wakes).panicked = false ∧
        (Run.exec (step local_time) t wakes).processed = t.processed ++ wakes.filterMap Wake.event? ↔
      ∀ q ∈ wakes.filterMap Wake.event?, q.1.has_utf8_path = true) := by
  intro wakes
  induction wakes with
  | nil =>
      intro t h
      simp [h.1]
  | cons wake wakes ih =>
      intro t h
      rw [Run.exec_cons]
      cases hwake : wake.event? with
      | none =>
          obtain ⟨hclean, hproc⟩ := step_clean local_time h wake (by simp [hwake])
          rw [List.filterMap_cons_none hwake, ← ih hclean, hproc, hwake]
          simp
      | some q =>
          rw [List.filterMap_cons_some hwake, List.forall_mem_cons]
          cases hq : q.1.has_utf8_path with
          | false =>
              have hdead := panicked_run local_time wakes (step_panics local_time h hwake hq)
              rw [hdead]
              simp
          | true =>
              obtain ⟨hclean, hproc⟩ := step_clean local_time h wake
                (by intro p hp; rw [hwake] at hp; cases hp; exact hq)
              rw [← ih hclean, hproc, hwake]
              simp

end WriterTask

/-- A writer that is started sees all events exactly when their paths are UTF-8. -/
theorem writer_processes_iff (local_time : Bool) (log_dir : LogDir) (now : Nat) (wakes : List Wake) :
    (Run.exec (WriterTask.step local_time) (.start log_dir now) wakes).SeenAll wakes ↔
      ∀ q ∈ wakes.filterMap Wake.event?, q.1.has_utf8_path = true :=
  WriterTask.run_iff local_time wakes ⟨rfl, fun q hq => by cases hq⟩

/-! ## The subscribers -/

/-- What a subscriber asks for. -/
structure Subscription where
  track_cmd : Option String
  type_filter : Option (List EventType)
  local_time : Bool

/-- Check if a cmd group name appears in a chain. -/
def chains_contain (chain : List ChainLink) (cmd_name : String) : Bool :=
  chain.any fun link => link.comm = cmd_name

namespace Subscription

/-- The daemon's own events, which a global subscriber is not sent. -/
def is_own (s : Subscription) (e : FileEvent) : Bool :=
  s.track_cmd = some CMD_GLOBAL && (e.cmd = "fsmon" || e.path.startsWith Monitor.LOG_ROOT)

/-- The filter by cmd group; global events have empty chains. -/
def keeps_cmd (s : Subscription) (e : FileEvent) : Bool :=
  match s.track_cmd with
  | none => true
  | some wanted =>
      if wanted = CMD_GLOBAL then e.chain.isEmpty
      else !e.chain.isEmpty && chains_contain e.chain wanted

/-- The filter by event type. -/
def keeps_type (s : Subscription) (e : FileEvent) : Bool :=
  match s.type_filter with
  | none => true
  | some allowed => allowed.contains e.event_type

/-- The event is sent. -/
def wants (s : Subscription) (e : FileEvent) : Bool :=
  !s.is_own e && s.keeps_cmd e && s.keeps_type e

end Subscription

/-- How a subscriber's task is over before the channel is closed. -/
inductive Ending where
  | disconnected
  | panicked
  deriving DecidableEq, Repr

/-- The task of `subscriber_task`. -/
structure SubscriberTask where
  ending : Option Ending
  sent : List Str
  /-- The events it has sent or filtered out, in order. -/
  processed : List (FileEvent × String)

namespace SubscriberTask

/-- The line that says how many events a slow subscriber has missed. -/
def lag_warning (n : Nat) : Str :=
  "\x7b\"warning\":\"subscriber too slow, dropped ".toList ++ (toString n).toList ++
    " events\",\"path\":\"\"\x7d\n".toList

/-- The task, with its first response sent or not. -/
def start (connected : Bool) : SubscriberTask :=
  if connected then ⟨none, ["\"Ok\"\n".toList], []⟩ else ⟨some .disconnected, [], []⟩

/-- One turn of the loop; `r.2` is whether the socket takes what is written. -/
def step (s : Subscription) (t : SubscriberTask) (r : Recv × Bool) : SubscriberTask :=
  if t.ending.isSome then t
  else
    match r.1 with
    | .event e cmd_name =>
        if s.wants e then
          match e.jsonl_string s.local_time with
          | none => { t with ending := some .panicked }
          | some line =>
              if r.2 then
                { t with
                  sent := t.sent ++ [line ++ "\n".toList]
                  processed := t.processed ++ [(e, cmd_name)] }
              else { t with ending := some .disconnected }
        else { t with processed := t.processed ++ [(e, cmd_name)] }
    | .lagged n => if r.2 then { t with sent := t.sent ++ [lag_warning n] } else t

/-- The task has seen every event of these and is still there. -/
def SeenAll (t : SubscriberTask) (feed : List (Recv × Bool)) : Prop :=
  t.ending = none ∧ t.processed = feed.filterMap fun r => r.1.event?

variable (s : Subscription)

theorem ended_run : ∀ (feed : List (Recv × Bool)) {t : SubscriberTask}, t.ending.isSome = true →
    (Run.exec (step s) t feed).ending.isSome = true := by
  intro feed
  induction feed with
  | nil =>
      intro _ h
      exact h
  | cons r feed ih =>
      intro t h
      have hstep : t.step s r = t := if_pos h
      rw [Run.exec_cons, hstep]
      exact ih h

/-- An event whose line is wanted has one. -/
def HasLine (r : Recv) : Prop :=
  ∀ q, r.event? = some q → s.wants q.1 = true → q.1.has_utf8_path = true

/-- One turn while the socket takes everything. -/
theorem step_sees {t : SubscriberTask} (h : t.ending = none) {r : Recv} (hline : HasLine s r) :
    (t.step s (r, true)).ending = none ∧
      (t.step s (r, true)).processed = t.processed ++ r.event?.toList := by
  cases r with
  | lagged n => simp [step, h, Recv.event?]
  | event e cmd_name =>
      cases hwants : s.wants e with
      | false => simp [step, h, hwants, Recv.event?]
      | true =>
          have hpath := hline (e, cmd_name) rfl hwants
          rw [← FileEvent.jsonl_string_isSome s.local_time e] at hpath
          obtain ⟨line, hl⟩ := Option.isSome_iff_exists.1 hpath
          simp [step, h, hwants, hl, Recv.event?]

theorem step_panics {t : SubscriberTask} (h : t.ending = none) {r : Recv} (hline : ¬ HasLine s r)
    (sent : Bool) : (t.step s (r, sent)).ending = some .panicked := by
  cases r with
  | lagged n => exact absurd (fun q hq => by cases hq) hline
  | event e cmd_name =>
      have hwants : s.wants e = true := by
        by_contra hno
        exact hline fun q hq hw => absurd (by cases hq; exact hw) hno
      have hpath : e.has_utf8_path = false := by
        cases hp : e.has_utf8_path with
        | false => rfl
        | true => exact absurd (fun q hq _ => by cases hq; exact hp) hline
      rw [← FileEvent.jsonl_string_isSome s.local_time e] at hpath
      have hl : e.jsonl_string s.local_time = none := by simpa using hpath
      simp [step, h, hwants, hl]

/-- From a live task, with a socket that takes everything, a run sees all events exactly when those
it sends have UTF-8 paths. -/
theorem run_iff : ∀ (feed : List (Recv × Bool)) {t : SubscriberTask}, t.ending = none →
    (∀ r ∈ feed, r.2 = true) →
    ((Run.exec (step s) t feed).ending = none ∧
        (Run.exec (step s) t feed).processed = t.processed ++ feed.filterMap (fun r => r.1.event?) ↔
      ∀ q ∈ feed.filterMap (fun r => r.1.event?), s.wants q.1 = true → q.1.has_utf8_path = true)
  | [], t, h, _ => by simp [h]
  | (r, sent) :: feed, t, h, hsend => by
      have hrest : ∀ r ∈ feed, r.2 = true := fun r hr => hsend r (List.mem_cons_of_mem _ hr)
      cases hsend (r, sent) List.mem_cons_self
      rw [Run.exec_cons]
      by_cases hline : HasLine s r
      · obtain ⟨hlive, hproc⟩ := step_sees s h hline
        have ih := run_iff feed hlive hrest
        rw [hproc] at ih
        cases hr : r.event? with
        | none =>
            rw [show ((r, true) :: feed).filterMap _ = _ from List.filterMap_cons_none hr, ← ih, hr]
            simp
        | some q =>
            rw [show ((r, true) :: feed).filterMap _ = _ from List.filterMap_cons_some hr,
              List.forall_mem_cons, ← ih, hr]
            simp only [Option.toList_some, List.append_assoc, List.singleton_append]
            exact (and_iff_right (hline q hr)).symm
      · have hended := ended_run s feed (by rw [step_panics s h hline true]; rfl)
        constructor
        · intro hlive
          rw [hlive.1] at hended
          cases hended
        · intro hall
          exact absurd (fun q hq => hall q (List.mem_filterMap.2 ⟨_, List.mem_cons_self, hq⟩)) hline

end SubscriberTask

/-- A subscriber whose socket takes everything sees all events exactly when those it asks for have
UTF-8 paths. -/
theorem subscriber_processes_iff (s : Subscription) (feed : List (Recv × Bool))
    (hsend : ∀ r ∈ feed, r.2 = true) :
    (Run.exec (SubscriberTask.step s) (.start true) feed).SeenAll feed ↔
      ∀ q ∈ feed.filterMap (fun r => r.1.event?), s.wants q.1 = true → q.1.has_utf8_path = true :=
  SubscriberTask.run_iff s feed rfl hsend

/-! ## Every event is delivered -/

/-- No event of the stream stops its delivery: each has its two lines, every writer that is fed the
stream sees all of it, and so does every subscriber whose socket takes what is sent. -/
def DeliversAll (stream : List (FileEvent × String)) : Prop :=
  (∀ q ∈ stream, ∀ local_time, (q.1.jsonl_string local_time).isSome) ∧
    (∀ local_time log_dir now wakes, wakes.filterMap Wake.event? = stream →
      (Run.exec (WriterTask.step local_time) (.start log_dir now) wakes).SeenAll wakes) ∧
    ∀ (s : Subscription) (feed : List (Recv × Bool)),
      (feed.filterMap fun r => r.1.event?) = stream → (∀ r ∈ feed, r.2 = true) →
        (Run.exec (SubscriberTask.step s) (.start true) feed).SeenAll feed

/-- **Every event is delivered** exactly when each path of the stream is UTF-8. -/
theorem delivers_all_iff (stream : List (FileEvent × String)) :
    DeliversAll stream ↔ ∀ q ∈ stream, q.1.has_utf8_path = true := by
  constructor
  · intro h q hq
    rw [← FileEvent.jsonl_string_isSome false q.1]
    exact h.1 q hq false
  · intro h
    refine ⟨fun q hq local_time => ?_, ?_, ?_⟩
    · rw [FileEvent.jsonl_string_isSome local_time q.1]
      exact h q hq
    · rintro local_time log_dir now wakes rfl
      exact (writer_processes_iff local_time log_dir now wakes).2 h
    · rintro s feed rfl hsend
      exact (subscriber_processes_iff s feed hsend).2 fun q hq _ => h q hq

end

/-- Every instant is printed as the epoch. -/
@[reducible] def stoppedClock : Chrono :=
  ⟨fun _ => "1970-01-01T00:00:00Z".toList, fun _ => "1970-01-01T00:00:00+00:00".toList⟩

/-- A file in `/` whose name is the byte 0xFF. -/
def latinEvent : FileEvent := { FileLogWriter.sampleEvent 1 with path := [[0xFF]] }

/-- The event of a file whose name is not UTF-8 has no line; it stops delivery. -/
theorem latin_name_stops_delivery :
    ¬ @DeliversAll stoppedClock [(latinEvent, CMD_GLOBAL), (FileLogWriter.sampleEvent 1, CMD_GLOBAL)] := by
  rintro ⟨hline, _⟩
  have hlatin := hline _ List.mem_cons_self false
  rw [@FileEvent.jsonl_string_isSome stoppedClock false] at hlatin
  exact absurd hlatin (by decide)

end Fsmon
