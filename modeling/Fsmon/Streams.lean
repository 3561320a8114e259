/-
# `Fsmon.Streams` — what a subscriber is sent, against what the logs get

Every record is sent with the name of its cmd group.  `FileLogWriter` routes by
that name; `subscriber_task` receives it and looks at the ancestry chain of the
record instead.  The loop of `Monitor::run` makes the stream, and a subscriber is
fed all of it.

    Loop.step      a batch is processed, patched and sent; or something else happens
    Received       the task is alive and has been sent these events, line by line
    group_shows    the chain of a record tells its group, as far as `c` goes
    Told           the same, for the records that are not the daemon's own

A subscriber to `c` is sent the events of `c` exactly when the chains tell so for
every record of the stream, and its paths can be printed (`agrees_iff`).
-/
import Fsmon.Delivery
import Fsmon.Monitor.Daemon
import Fsmon.Monitor.Publish
import Fsmon.Monitor.Records

namespace Fsmon

open Monitor (Taking published patch_event event_of unsigned_abs)

/-! ## The stream -/

/-- The main loop, as far as the stream goes. -/
structure Loop where
  monitor : Monitor
  /-- What has been sent. -/
  sent : List (FileEvent × String)
  /-- The entries that have taken an event, with what the tracker knew when the records were patched
  (a history variable). -/
  taken : List (Taking × (Nat → Option Tracked))

/-- One turn of the loop. -/
inductive Round where
  | batch (os : Nat → Os) (current : Nat → Option Tracked) (events : List DecodedEvent)
  | other (s : Monitor.Step)

namespace Loop

def start (m : Monitor) : Loop := ⟨m, [], []⟩

section
variable [Sizefilter]

def step (l : Loop) : Round → Loop
  | .batch os current events =>
      let (monitor, pending) := l.monitor.process_event_batch os events
      { monitor
        sent := l.sent ++ published current pending
        taken := l.taken ++ (Monitor.batch_takings os l.monitor events).map fun x => (x, current) }
  | .other s => { l with monitor := l.monitor.step s }

/-- What an entry's records are when they are sent. -/
def sends (x : Taking × (Nat → Option Tracked)) : List (FileEvent × String) := published x.2 x.1.recs

/-- What has been sent is what the entries have recorded. -/
theorem exec_sent (rounds : List Round) (m : Monitor) :
    (Run.exec step (start m) rounds).sent = (Run.exec step (start m) rounds).taken.flatMap sends := by
  have hstep : ∀ (l : Loop) (r : Round), l.sent = l.taken.flatMap sends → True →
      (l.step r).sent = (l.step r).taken.flatMap sends := by
    intro l r h _
    cases r with
    | other s => exact h
    | batch os current events =>
        show l.sent ++ published current (Monitor.process_event_batch os l.monitor events).2 = _
        rw [Monitor.process_event_batch_records, h]
        show _ = (l.taken ++ _).flatMap sends
        rw [List.flatMap_append, List.flatMap_map, published, Monitor.patch_pending_events, List.map_map,
          List.map_flatMap]
        simp only [sends, published, Monitor.patch_pending_events, List.map_map]
  exact Run.inv_exec hstep rounds (start m) rfl (Run.Guarded.of_forall (fun _ _ => trivial) rounds _)

end

end Loop

/-! ## A subscriber -/

section
variable [Chrono] (s : Subscription)

namespace SubscriberTask

/-- The line of an event, as it is written. -/
def event_line (q : FileEvent × String) : Option Str :=
  (q.1.jsonl_string s.local_time).map (· ++ "\n".toList)

/-- The task is alive, and has been sent these events after its first response. -/
def Received (t : SubscriberTask) (events : List (FileEvent × String)) : Prop :=
  t.ending = none ∧ (t.processed.filter fun q => s.wants q.1) = events ∧
    t.sent.map some = some "\"Ok\"\n".toList :: events.map (event_line s)

/-- A subscriber that never lags is fed the stream, and its socket takes everything. -/
def feed (stream : List (FileEvent × String)) : List (Recv × Bool) :=
  stream.map fun q => (.event q.1 q.2, true)

omit [Chrono] in
theorem events_of_feed (stream : List (FileEvent × String)) :
    ((feed stream).filterMap fun r => r.1.event?) = stream := by
  rw [feed, List.filterMap_map]
  exact List.filterMap_some

/-- A turn that leaves the task alive: the event is dealt with, and its line is written if it is wanted. -/
theorem step_alive {t : SubscriberTask} {q : FileEvent × String}
    (h : (t.step s (.event q.1 q.2, true)).ending = none) :
    (t.step s (.event q.1 q.2, true)).processed = t.processed ++ [q] ∧
      (t.step s (.event q.1 q.2, true)).sent.map some =
        t.sent.map some ++ ([q].filter fun q => s.wants q.1).map (event_line s) := by
  have hend : t.ending = none := by
    by_contra hdead
    rw [step, if_pos (Option.isSome_iff_ne_none.2 hdead)] at h
    exact hdead h
  cases hwants : s.wants q.1 with
  | false => simp [step, hend, hwants]
  | true =>
      cases hline : q.1.jsonl_string s.local_time with
      | none => simp [step, hend, hwants, hline] at h
      | some line => simp [step, hend, hwants, hline, event_line]

/-- A task that is still alive has dealt with every event. -/
theorem run_alive : ∀ (stream : List (FileEvent × String)) {t : SubscriberTask},
    (Run.exec (step s) t (feed stream)).ending = none →
      (Run.exec (step s) t (feed stream)).processed = t.processed ++ stream ∧
        (Run.exec (step s) t (feed stream)).sent.map some =
          t.sent.map some ++ (stream.filter fun q => s.wants q.1).map (event_line s) := by
  intro stream
  induction stream with
  | nil =>
      intro t _
      exact ⟨(List.append_nil _).symm, (List.append_nil _).symm⟩
  | cons q stream ih =>
      intro t h
      have hlive : (t.step s (.event q.1 q.2, true)).ending = none := by
        by_contra hdead
        have hended := ended_run s (feed stream) (Option.isSome_iff_ne_none.2 hdead)
        rw [show Run.exec (step s) _ (feed stream) = Run.exec (step s) t (feed (q :: stream)) from rfl, h]
          at hended
        cases hended
      obtain ⟨hproc, hsent⟩ := step_alive s hlive
      obtain ⟨hprocs, hsents⟩ := ih h
      constructor
      · refine hprocs.trans ?_
        rw [hproc, List.append_assoc]
        rfl
      · refine hsents.trans ?_
        rw [hsent, List.append_assoc, ← List.map_append, ← List.filter_append]
        rfl

/-- What a subscriber has received is what it wants, if that can be printed. -/
theorem received_iff (stream events : List (FileEvent × String)) :
    (Run.exec (step s) (start true) (feed stream)).Received s events ↔
      (∀ q ∈ stream, s.wants q.1 = true → q.1.has_utf8_path = true) ∧
        (stream.filter fun q => s.wants q.1) = events := by
  have hsees := run_iff s (feed stream) (show (start true).ending = none from rfl) (by
    intro r hr
    obtain ⟨q, _, rfl⟩ := List.mem_map.1 hr
    rfl)
  rw [events_of_feed] at hsees
  constructor
  · rintro ⟨hend, hevents, _⟩
    have hproc : (Run.exec (step s) (start true) (feed stream)).processed = stream :=
      (run_alive s stream hend).1
    rw [hproc] at hevents
    exact ⟨hsees.1 ⟨hend, hproc⟩, hevents⟩
  · rintro ⟨hutf8, rfl⟩
    obtain ⟨hend, hproc⟩ := hsees.2 hutf8
    have hproc : (Run.exec (step s) (start true) (feed stream)).processed = stream := hproc
    exact ⟨hend, by rw [hproc], (run_alive s stream hend).2⟩

end SubscriberTask

end

/-! ## Chains and names -/

section
variable (c : String)

/-- A subscriber to the group `c`, without a type filter. -/
def Subscription.to_group (local_time : Bool) : Subscription := ⟨some c, none, local_time⟩

/-- The chain of what an entry records tells its group, as far as `c` goes: records of the other
groups have a chain, and one with a process called `c` only if `c` is the group. -/
def group_shows (x : Taking) : Prop :=
  match x.entry.2.cmd with
  | none => True
  | some cmd =>
      let chain := x.os.chain (unsigned_abs x.raw.pid)
      if c = CMD_GLOBAL then chain = [] ↔ cmd = CMD_GLOBAL else chains_contain chain c = true ↔ cmd = c

/-- What an entry has recorded of a type, as it is sent. -/
def sent_record (x : Taking × (Nat → Option Tracked)) (r : EventType × Nat) : FileEvent :=
  (patch_event x.2 ⟨event_of x.1.os x.1.raw x.1.entry.2 r.1 r.2, x.1.cmd_name,
    unsigned_abs x.1.raw.pid⟩).event

/-- Each record that is sent and is not the daemon's own shows its group; and its path is UTF-8 if it
is one of `c`. -/
def Told (local_time : Bool) (x : Taking × (Nat → Option Tracked)) : Prop :=
  ∀ r ∈ x.1.accepted, (Subscription.to_group c local_time).is_own (sent_record x r) = false →
    group_shows c x.1 ∧ (x.1.cmd_name = c → (Text.fromUtf8 x.1.raw.path.toBytes).isSome = true)

/-- What a subscriber to `c` is meant to get: the events of `c`, and for `_global` not the daemon's own. -/
def meant (local_time : Bool) (q : FileEvent × String) : Bool :=
  !(Subscription.to_group c local_time).is_own q.1 && q.2 = c

variable {c} {local_time : Bool}

theorem sends_eq (x : Taking × (Nat → Option Tracked)) :
    Loop.sends x = x.1.accepted.map fun r => (sent_record x r, x.1.cmd_name) := by
  rw [Loop.sends, published, Monitor.patch_pending_events, Taking.recs_eq, List.map_map, List.map_map]
  refine List.map_congr_left fun r _ => ?_
  exact congrArg (Prod.mk _) (Monitor.patch_event_same x.2 _).1

/-- The filter by chain keeps a record exactly if it is one of `c`, if the chain shows it. -/
theorem keeps_cmd_iff (local_time : Bool) (x : Taking × (Nat → Option Tracked)) (r : EventType × Nat) :
    (Subscription.to_group c local_time).keeps_cmd (sent_record x r) = decide (x.1.cmd_name = c) ↔
      group_shows c x.1 := by
  have hchain : (sent_record x r).chain =
      if x.1.entry.2.cmd.isSome then x.1.os.chain (unsigned_abs x.1.raw.pid) else [] :=
    (Monitor.patch_event_same x.2 _).2.2.2
  have hname : x.1.cmd_name = x.1.entry.2.cmd.getD CMD_GLOBAL := rfl
  rw [group_shows, Subscription.keeps_cmd, Subscription.to_group, hchain, hname]
  cases x.1.entry.2.cmd with
  | none =>
      by_cases hc : c = CMD_GLOBAL
      · simp [hc]
      · simp [hc, Ne.symm hc]
  | some cmd =>
      generalize x.1.os.chain (unsigned_abs x.1.raw.pid) = chain
      by_cases hc : c = CMD_GLOBAL
      · cases chain <;> simp [hc]
      · have hempty : chains_contain [] c = false := rfl
        cases chain with
        | nil => simp [hc, hempty]
        | cons l ls =>
            cases hcont : chains_contain (l :: ls) c <;> by_cases hcmd : cmd = c <;> simp [hc, hcont, hcmd]

theorem sent_record_utf8 (x : Taking × (Nat → Option Tracked)) (r : EventType × Nat) :
    (sent_record x r).has_utf8_path = (Text.fromUtf8 x.1.raw.path.toBytes).isSome := by
  rw [FileEvent.has_utf8_path]
  exact congrArg (fun p : PathBuf => (Text.fromUtf8 p.toBytes).isSome) (Monitor.patch_event_same x.2 _).2.1

/-- A record is received exactly if it is meant to be, and can be printed then. -/
theorem told_iff (x : Taking × (Nat → Option Tracked)) (r : EventType × Nat) :
    (((Subscription.to_group c local_time).wants (sent_record x r) = true →
          (sent_record x r).has_utf8_path = true) ∧
        (Subscription.to_group c local_time).wants (sent_record x r) =
          meant c local_time (sent_record x r, x.1.cmd_name)) ↔
      ((Subscription.to_group c local_time).is_own (sent_record x r) = false →
        group_shows c x.1 ∧ (x.1.cmd_name = c → (Text.fromUtf8 x.1.raw.path.toBytes).isSome = true)) := by
  rw [← keeps_cmd_iff local_time x r, ← sent_record_utf8 x r]
  have htype : (Subscription.to_group c local_time).keeps_type (sent_record x r) = true := rfl
  rw [Subscription.wants, meant, htype, Bool.and_true]
  cases (Subscription.to_group c local_time).is_own (sent_record x r) with
  | true => simp
  | false =>
      cases hkeeps : (Subscription.to_group c local_time).keeps_cmd (sent_record x r) <;>
        by_cases hc : x.1.cmd_name = c <;> simp [hc]

end

/-! ## Agreement -/

/-- Two filters leave the same of a list exactly when they agree on it. -/
theorem filter_eq_iff {α : Type*} {p q : α → Bool} (l : List α) :
    l.filter p = l.filter q ↔ ∀ a ∈ l, p a = q a := by
  refine ⟨fun h a ha => ?_, List.filter_congr⟩
  have hmem : a ∈ l.filter p ↔ a ∈ l.filter q := by rw [h]
  rw [List.mem_filter, List.mem_filter, and_iff_right ha, and_iff_right ha] at hmem
  exact Bool.eq_iff_iff.2 hmem

section
variable [Chrono] [Sizefilter]

/-- **Stream and log agree**: over any rounds of the loop, a subscriber to `c` receives exactly the
events of `c`, in order, when the chains of what was recorded tell. -/
theorem agrees_iff (c : String) (local_time : Bool) (m : Monitor) (rounds : List Round) :
    (Run.exec (SubscriberTask.step (.to_group c local_time)) (.start true)
        (SubscriberTask.feed (Run.exec Loop.step (.start m) rounds).sent)).Received (.to_group c local_time)
      ((Run.exec Loop.step (.start m) rounds).sent.filter (meant c local_time)) ↔
    ∀ x ∈ (Run.exec Loop.step (.start m) rounds).taken, Told c local_time x := by
  rw [SubscriberTask.received_iff, filter_eq_iff, ← forall₂_and, Loop.exec_sent]
  simp only [List.mem_flatMap, sends_eq, List.mem_map]
  constructor
  · intro h x hx r hr
    exact (told_iff x r).1 (h _ ⟨x, hx, r, hr, rfl⟩)
  · rintro h _ ⟨x, hx, r, hr, rfl⟩
    exact (told_iff x r).2 (h x hx r hr)

end

/-! ### A group within a group -/

/-- `make` has started `sh`, and `sh` touches the file. -/
def nestedOs : Os :=
  { Os.calm Monitor.deepTree with
    in_tree := fun _ _ => true
    chain := fun _ => [⟨7, "sh", "", ""⟩, ⟨2, "make", "", ""⟩] }

/-- Both groups are recorded below `/a`. -/
def nestedMonitor : Monitor :=
  { Monitor.idle with
    monitored_entries :=
      [([[0x61]], ⟨none, none, true, some "make", none⟩), ([[0x61]], ⟨none, none, true, some "sh", none⟩)] }

/-- One batch, with one event. -/
def nestedRound : List Round := [.batch (fun _ => nestedOs) (fun _ => none) [Monitor.onFile FAN_CREATE]]

/-- The subscriber to the outer group receives the record of the inner one, too. -/
theorem outer_receives_inner :
    ¬ @SubscriberTask.Received stoppedClock (.to_group "make" false)
      (Run.exec (@SubscriberTask.step stoppedClock (.to_group "make" false)) (.start true)
        (SubscriberTask.feed (Run.exec (@Loop.step noSizes) (.start nestedMonitor) nestedRound).sent))
      ((Run.exec (@Loop.step noSizes) (.start nestedMonitor) nestedRound).sent.filter (meant "make" false)) := by
  intro h
  have hlen := congrArg List.length ((@SubscriberTask.received_iff stoppedClock _ _ _).1 h).2
  revert hlen
  decide +kernel

end Fsmon
