/-
# `Fsmon.Reader` — from the kernel's queues to the main loop

The reader tasks of `spawn_fd_reader`, one for each group, and the event channel
they share.  The kernel announces what arrives by edges.  A task that is woken
reads as much as its buffer takes and decodes it; with records in hand it sends
them and stays ready, and with none it clears the readiness it was woken by.

    Feed.step      arrivals, the runtime, the tasks and the main loop, in any order
    Feed.Kept      what has been read is received, in the channel, or in hand
    ReadsOn        a read gives records, or leaves nothing that was announced before
    Feed.Alert     no task waits for an announcement that will not come

A read that gives no record looks like an empty queue: events that the cache
cannot place, a failed `dup` or a failed read.  If it leaves something behind, the
task goes to sleep on it (`left_asleep`).
-/
import Fsmon.Lib.Readiness
import Fsmon.Lib.Run
import Fsmon.Monitor.Events
import Mathlib.Logic.Function.Basic

namespace Fsmon

open Readiness (Source)

/-- Where a reader task is. -/
inductive ReaderAt where
  /-- At `readable().await`. -/
  | waiting
  /-- Woken by an announcement. -/
  | reading (guard : Nat)
  /-- At `tx.send(events)`. -/
  | sending (guard : Nat) (events : List DecodedEvent)
  /-- At `clear_ready()`. -/
  | clearing (guard : Nat)
  /-- The loop is left. -/
  | dead

structure ReaderTask (κ : Type*) where
  /-- The group's queue, as the task's `AsyncFd` knows of it. -/
  source : Source κ
  place : ReaderAt
  /-- What has arrived (a history variable). -/
  arrived : List κ
  /-- What has been read, with what the resolver made of it (a history variable). -/
  resolved : List (κ × FidEvent)

/-- The tasks by their groups, and the channel. -/
structure Feed (κ : Type*) where
  tasks : Nat → ReaderTask κ
  /-- The batches on their way. -/
  channel : List (Nat × List DecodedEvent)
  /-- The batches that the main loop has taken (a history variable). -/
  received : List (Nat × List DecodedEvent)
  /-- The main loop has dropped its end. -/
  closed : Bool

/-- What the operating system and the cache answer to a read. -/
inductive ReadOutcome (κ : Type*) where
  /-- The descriptor cannot be duplicated, or the read fails. -/
  | failed
  /-- The buffer takes one event and so many more. -/
  | read (more : Nat) (resolve : κ → FidEvent)

/-- What happens next. -/
inductive FeedStep (κ : Type*) where
  | arrive (i : Nat) (k : κ)
  /-- The runtime looks at the edges. -/
  | poll (i : Nat)
  /-- `readable()` resolves. -/
  | wake (i : Nat)
  /-- `readable()` fails. -/
  | fail (i : Nat)
  | read (i : Nat) (outcome : ReadOutcome κ)
  | send (i : Nat)
  | clear (i : Nat)
  /-- The main loop takes a batch. -/
  | recv
  /-- The main loop drops its end. -/
  | close
  /-- `restart_reader`, for a task that is dead. -/
  | restart (i : Nat)

variable {κ : Type*}

/-- What is taken out of the queue; from an empty one, nothing (`WouldBlock`). -/
def ReadOutcome.taken (queue : List κ) : ReadOutcome κ → List (κ × FidEvent)
  | .failed => []
  | .read more resolve => (queue.take (more + 1)).map fun k => (k, resolve k)

/-- `read_fid_events_cached`: the records of what is taken. -/
def read_fid_events_cached (queue : List κ) (outcome : ReadOutcome κ) : List DecodedEvent :=
  decode_events ((outcome.taken queue).map Prod.snd)

namespace ReaderTask

/-- A task for a group whose queue holds this already. -/
def spawn (queue : List κ) : ReaderTask κ := ⟨.watch queue, .waiting, queue, []⟩

def arrive (t : ReaderTask κ) (k : κ) : ReaderTask κ :=
  { t with source := t.source.arrive k, arrived := t.arrived ++ [k] }

def wake (t : ReaderTask κ) : ReaderTask κ :=
  match t.place with
  | .waiting => if t.source.ready then { t with place := .reading t.source.tick } else t
  | _ => t

def fail (t : ReaderTask κ) : ReaderTask κ :=
  match t.place with
  | .waiting => { t with place := .dead }
  | _ => t

def read (t : ReaderTask κ) (outcome : ReadOutcome κ) : ReaderTask κ :=
  match t.place with
  | .reading guard =>
      let events := read_fid_events_cached t.source.queue outcome
      { t with
        source := t.source.drop (outcome.taken t.source.queue).length
        place := if events = [] then .clearing guard else .sending guard events
        resolved := t.resolved ++ outcome.taken t.source.queue }
  | _ => t

def clear (t : ReaderTask κ) : ReaderTask κ :=
  match t.place with
  | .clearing guard => { t with source := t.source.clear guard, place := .waiting }
  | _ => t

/-- A new task takes over the group's queue. -/
def restart (t : ReaderTask κ) : ReaderTask κ :=
  match t.place with
  | .dead => { t with source := .watch t.source.queue, place := .waiting }
  | _ => t

/-- The records that have been read and not sent. -/
def in_hand (t : ReaderTask κ) : List DecodedEvent :=
  match t.place with
  | .sending _ events => events
  | _ => []

end ReaderTask

namespace Feed

def start (queues : Nat → List κ) : Feed κ := ⟨fun i => .spawn (queues i), [], [], false⟩

/-- `spawn_tasks`: a channel of capacity 0 is an unbounded one. -/
def has_room (capacity : Option Nat) (channel : List (Nat × List DecodedEvent)) : Bool :=
  match capacity with
  | none => true
  | some cap => cap = 0 || channel.length < cap

def put (f : Feed κ) (i : Nat) (t : ReaderTask κ) : Feed κ := { f with tasks := Function.update f.tasks i t }

variable (capacity : Option Nat)

/-- `tx.send(events)`; with the receiver gone, the task leaves its loop. -/
def send (f : Feed κ) (i : Nat) : Feed κ :=
  match (f.tasks i).place with
  | .sending _ events =>
      if f.closed then f.put i { f.tasks i with place := .dead }
      else if has_room capacity f.channel then
        -- `retain_ready`
        { f.put i { f.tasks i with place := .waiting } with channel := f.channel ++ [(i, events)] }
      else f
  | _ => f

def step (f : Feed κ) : FeedStep κ → Feed κ
  | .arrive i k => f.put i ((f.tasks i).arrive k)
  | .poll i => f.put i { f.tasks i with source := (f.tasks i).source.poll }
  | .wake i => f.put i (f.tasks i).wake
  | .fail i => f.put i (f.tasks i).fail
  | .read i outcome => f.put i ((f.tasks i).read outcome)
  | .send i => f.send capacity i
  | .clear i => f.put i (f.tasks i).clear
  | .recv =>
      if f.closed then f
      else
        match f.channel with
        | [] => f
        | b :: rest => { f with channel := rest, received := f.received ++ [b] }
  | .close => { f with closed := true }
  | .restart i => f.put i (f.tasks i).restart

end Feed

/-! ## What has been read -/

theorem ReadOutcome.taken_append (queue : List κ) (outcome : ReadOutcome κ) :
    (outcome.taken queue).map Prod.fst ++ queue.drop (outcome.taken queue).length = queue := by
  cases outcome with
  | failed => rfl
  | read more resolve =>
      have hmap : ((queue.take (more + 1)).map fun k => (k, resolve k)).map Prod.fst =
          queue.take (more + 1) := by
        rw [List.map_map]
        exact List.map_id _
      rw [taken, hmap, List.length_map, List.length_take]
      rcases Nat.le_total (more + 1) queue.length with h | h
      · rw [Nat.min_eq_left h, List.take_append_drop]
      · rw [Nat.min_eq_right h, List.take_of_length_le h, List.drop_length, List.append_nil]

/-- What has arrived has been read, or is in the queue. -/
def ReaderTask.Reads (t : ReaderTask κ) : Prop := t.arrived = t.resolved.map Prod.fst ++ t.source.queue

namespace ReaderTask

variable {t : ReaderTask κ}

theorem Reads.arrive (h : t.Reads) (k : κ) : (t.arrive k).Reads := by
  change t.arrived ++ [k] = t.resolved.map Prod.fst ++ (t.source.queue ++ [k])
  rw [h, List.append_assoc]

theorem Reads.poll (h : t.Reads) : Reads { t with source := t.source.poll } := by
  change t.arrived = t.resolved.map Prod.fst ++ t.source.poll.queue
  rw [Readiness.poll_queue]
  exact h

theorem Reads.wake (h : t.Reads) : t.wake.Reads := by
  rw [ReaderTask.wake]
  split
  · split
    · exact h
    · exact h
  · exact h

theorem Reads.fail (h : t.Reads) : t.fail.Reads := by
  rw [ReaderTask.fail]
  split
  · exact h
  · exact h

theorem Reads.read (h : t.Reads) (outcome : ReadOutcome κ) : (t.read outcome).Reads := by
  rw [ReaderTask.read]
  split
  · change t.arrived = (t.resolved ++ outcome.taken t.source.queue).map Prod.fst ++
      t.source.queue.drop (outcome.taken t.source.queue).length
    rw [List.map_append, List.append_assoc, ReadOutcome.taken_append]
    exact h
  · exact h

theorem Reads.clear (h : t.Reads) : t.clear.Reads := by
  rw [ReaderTask.clear]
  split
  · rename_i guard _
    have hqueue : (t.source.clear guard).queue = t.source.queue := by
      rw [Source.clear]
      split
      · rfl
      · rfl
    change t.arrived = t.resolved.map Prod.fst ++ (t.source.clear guard).queue
    rw [hqueue]
    exact h
  · exact h

theorem Reads.restart (h : t.Reads) : t.restart.Reads := by
  rw [ReaderTask.restart]
  split
  · exact h
  · exact h

/-- Nothing is read, and what is held stays. -/
def Same (t t' : ReaderTask κ) : Prop := t'.resolved = t.resolved ∧ t'.in_hand = t.in_hand

theorem wake_same (t : ReaderTask κ) : t.Same t.wake := by
  rw [wake]
  split
  · rename_i hplace
    split
    · exact ⟨rfl, by rw [in_hand, in_hand, hplace]⟩
    · exact ⟨rfl, rfl⟩
  · exact ⟨rfl, rfl⟩

theorem fail_same (t : ReaderTask κ) : t.Same t.fail := by
  rw [fail]
  split
  · rename_i hplace
    exact ⟨rfl, by rw [in_hand, in_hand, hplace]⟩
  · exact ⟨rfl, rfl⟩

theorem clear_same (t : ReaderTask κ) : t.Same t.clear := by
  rw [clear]
  split
  · rename_i hplace
    exact ⟨rfl, by rw [in_hand, in_hand, hplace]⟩
  · exact ⟨rfl, rfl⟩

theorem restart_same (t : ReaderTask κ) : t.Same t.restart := by
  rw [restart]
  split
  · rename_i hplace
    exact ⟨rfl, by rw [in_hand, in_hand, hplace]⟩
  · exact ⟨rfl, rfl⟩

end ReaderTask

namespace Feed

variable (capacity : Option Nat) {f : Feed κ}

@[simp] theorem put_tasks_self (f : Feed κ) (i : Nat) (t : ReaderTask κ) : (f.put i t).tasks i = t :=
  Function.update_self ..

theorem put_tasks_ne (f : Feed κ) {i j : Nat} (h : j ≠ i) (t : ReaderTask κ) :
    (f.put i t).tasks j = f.tasks j := Function.update_of_ne h ..

theorem put_task {P : ReaderTask κ → Prop} {i j : Nat} {t : ReaderTask κ} (h : P (f.tasks j))
    (ht : i = j → P t) : P ((f.put i t).tasks j) := by
  by_cases hj : j = i
  · rw [hj, put_tasks_self]
    exact ht hj.symm
  · rw [put_tasks_ne f hj]
    exact h

/-- What a step does to a task: nothing, or the task's own step. -/
theorem step_task {P : ReaderTask κ → Prop} {a : FeedStep κ} {j : Nat} (h : P (f.tasks j))
    (harrive : ∀ k, a = .arrive j k → P ((f.tasks j).arrive k))
    (hpoll : P { f.tasks j with source := (f.tasks j).source.poll }) (hwake : P (f.tasks j).wake)
    (hfail : P (f.tasks j).fail) (hread : ∀ outcome, a = .read j outcome → P ((f.tasks j).read outcome))
    (hsend : ∀ guard events, (f.tasks j).place = .sending guard events →
      P { f.tasks j with place := .dead } ∧ P { f.tasks j with place := .waiting })
    (hclear : P (f.tasks j).clear) (hrestart : a = .restart j → P (f.tasks j).restart) :
    P ((f.step capacity a).tasks j) := by
  cases a with
  | arrive i k => exact put_task h (fun hi => by cases hi; exact harrive k rfl)
  | poll i => exact put_task h (fun hi => by cases hi; exact hpoll)
  | wake i => exact put_task h (fun hi => by cases hi; exact hwake)
  | fail i => exact put_task h (fun hi => by cases hi; exact hfail)
  | read i outcome => exact put_task h (fun hi => by cases hi; exact hread outcome rfl)
  | clear i => exact put_task h (fun hi => by cases hi; exact hclear)
  | restart i => exact put_task h (fun hi => by cases hi; exact hrestart rfl)
  | close => exact h
  | recv =>
      rw [step]
      split
      · exact h
      · split
        · exact h
        · exact h
  | send i =>
      rw [step, send]
      split
      · rename_i guard events hplace
        split
        · exact put_task h (fun hi => by cases hi; exact (hsend guard events hplace).1)
        · split
          · exact put_task h (fun hi => by cases hi; exact (hsend guard events hplace).2)
          · exact h
      · exact h

theorem step_reads (h : ∀ j, (f.tasks j).Reads) (a : FeedStep κ) (j : Nat) :
    ((f.step capacity a).tasks j).Reads :=
  step_task capacity (h j) (fun k _ => (h j).arrive k) (h j).poll (h j).wake (h j).fail
    (fun outcome _ => (h j).read outcome) (fun _ _ _ => ⟨h j, h j⟩) (h j).clear (fun _ => (h j).restart)

/-- The records of one group's batches. -/
def of_group (i : Nat) (batches : List (Nat × List DecodedEvent)) : List DecodedEvent :=
  (batches.filter fun b => b.1 = i).flatMap Prod.snd

theorem of_group_append (i : Nat) (bs cs : List (Nat × List DecodedEvent)) :
    of_group i (bs ++ cs) = of_group i bs ++ of_group i cs := by
  rw [of_group, List.filter_append, List.flatMap_append, of_group, of_group]

/-- What has been read of a group is received, in the channel, or in hand. -/
def Kept (f : Feed κ) : Prop :=
  f.closed = false → ∀ i, decode_events ((f.tasks i).resolved.map Prod.snd) =
    of_group i (f.received ++ f.channel) ++ (f.tasks i).in_hand

/-- A task's step that reads nothing and keeps what it holds. -/
theorem Kept.put (h : f.Kept) {i : Nat} {t : ReaderTask κ} (hsame : (f.tasks i).Same t) : (f.put i t).Kept := by
  intro hopen j
  by_cases hj : j = i
  · cases hj
    rw [put_tasks_self, hsame.1, hsame.2]
    exact h hopen i
  · rw [put_tasks_ne f hj]
    exact h hopen j

theorem Kept.read (h : f.Kept) (i : Nat) (outcome : ReadOutcome κ) :
    (f.put i ((f.tasks i).read outcome)).Kept := by
  rw [ReaderTask.read]
  split
  · rename_i guard hplace
    intro hopen j
    by_cases hj : j = i
    · cases hj
      have hbefore := h hopen i
      rw [ReaderTask.in_hand, hplace, List.append_nil] at hbefore
      rw [put_tasks_self, List.map_append, decode_events, List.filterMap_append]
      refine congrArg₂ _ hbefore ?_
      rw [ReaderTask.in_hand]
      dsimp only
      split
      · rename_i hplace'
        split at hplace'
        · cases hplace'
        · cases hplace'
          rfl
      · rename_i hplace'
        by_cases hempty : read_fid_events_cached (f.tasks i).source.queue outcome = []
        · exact hempty
        · exact absurd (if_neg hempty) (hplace' guard _)
    · rw [put_tasks_ne f hj]
      exact h hopen j
  · exact h.put ⟨rfl, rfl⟩

theorem Kept.send (h : f.Kept) (i : Nat) : (f.send capacity i).Kept := by
  rw [Feed.send]
  split
  · rename_i guard events hplace
    split
    · rename_i hclosed
      intro hopen
      rw [show f.closed = false from hopen] at hclosed
      cases hclosed
    · split
      · intro hopen j
        have hbefore := h hopen j
        rw [show ({ f.put i { f.tasks i with place := .waiting } with channel := f.channel ++ [(i, events)] } :
          Feed κ).received ++ (f.channel ++ [(i, events)]) = f.received ++ f.channel ++ [(i, events)] from
            (List.append_assoc ..).symm, of_group_append]
        by_cases hj : j = i
        · cases hj
          rw [ReaderTask.in_hand, hplace] at hbefore
          simpa [of_group, ReaderTask.in_hand] using hbefore
        · have hnone : of_group j [(i, events)] = [] := by simp [of_group, Ne.symm hj]
          rw [hnone, List.append_nil]
          simpa [put_tasks_ne f hj] using hbefore
      · exact h
  · exact h

theorem step_kept (h : f.Kept) (a : FeedStep κ) : (f.step capacity a).Kept := by
  cases a with
  | arrive i k => exact h.put ⟨rfl, rfl⟩
  | poll i => exact h.put ⟨rfl, rfl⟩
  | wake i => exact h.put (f.tasks i).wake_same
  | fail i => exact h.put (f.tasks i).fail_same
  | read i outcome => exact h.read i outcome
  | send i => exact h.send capacity i
  | clear i => exact h.put (f.tasks i).clear_same
  | restart i => exact h.put (f.tasks i).restart_same
  | close =>
      intro hopen
      cases hopen
  | recv =>
      rw [step]
      split
      · exact h
      · split
        · exact h
        · rename_i b rest hchannel
          intro hopen j
          rw [show (f.received ++ [b]) ++ rest = f.received ++ f.channel by
            rw [hchannel, List.append_assoc, List.singleton_append]]
          exact h hopen j

end Feed

/-! ## What wakes a task -/

namespace ReaderTask

variable {t : ReaderTask κ}

/-- The task is awake, or will be woken; what it is about to clear announces nothing else. -/
def Alert (t : ReaderTask κ) : Prop :=
  match t.place with
  | .waiting => t.source.Awake
  | .reading guard => t.source.ready = true ∧ guard ≤ t.source.tick
  | .sending _ _ => t.source.ready = true
  | .clearing guard => t.source.ready = true ∧ guard ≤ t.source.tick ∧ t.source.Covered guard
  | .dead => True

/-- A read gives records, or what it leaves has been announced again. -/
def ReadsOn (t : ReaderTask κ) (outcome : ReadOutcome κ) : Prop :=
  match t.place with
  | .reading guard =>
      read_fid_events_cached t.source.queue outcome ≠ [] ∨
        (t.source.drop (outcome.taken t.source.queue).length).Covered guard
  | _ => True

theorem Alert.arrive (h : t.Alert) (k : κ) : (t.arrive k).Alert := by
  obtain ⟨source, place, arrived, resolved⟩ := t
  cases place with
  | waiting => exact Readiness.arrive_awake source k
  | reading guard => exact h
  | sending guard events => exact h
  | clearing guard => exact ⟨h.1, h.2.1, Readiness.arrive_covered source k⟩
  | dead => exact h

theorem Alert.poll (h : t.Alert) : Alert { t with source := t.source.poll } := by
  obtain ⟨source, place, arrived, resolved⟩ := t
  cases place with
  | waiting => exact Readiness.poll_awake h
  | reading guard => exact ⟨Readiness.poll_ready h.1, Nat.le_trans h.2 (Readiness.poll_tick source)⟩
  | sending guard events => exact Readiness.poll_ready h
  | clearing guard =>
      exact ⟨Readiness.poll_ready h.1, Nat.le_trans h.2.1 (Readiness.poll_tick source),
        Readiness.poll_covered h.2.1 h.2.2⟩
  | dead => exact h

theorem Alert.wake (h : t.Alert) : t.wake.Alert := by
  rw [ReaderTask.wake]
  split
  · split
    · rename_i hready
      exact ⟨hready, Nat.le_refl _⟩
    · exact h
  · exact h

theorem Alert.fail (h : t.Alert) : t.fail.Alert := by
  rw [ReaderTask.fail]
  split
  · exact trivial
  · exact h

/-- A read keeps a task alert exactly if it reads on. -/
theorem alert_read_iff (h : t.Alert) (outcome : ReadOutcome κ) :
    (t.read outcome).Alert ↔ t.ReadsOn outcome := by
  obtain ⟨source, place, arrived, resolved⟩ := t
  cases place with
  | reading guard =>
      by_cases hempty : read_fid_events_cached source.queue outcome = []
      · have hcovered : ReadsOn ⟨source, .reading guard, arrived, resolved⟩ outcome ↔
            (source.drop (outcome.taken source.queue).length).Covered guard :=
          or_iff_right (fun hne => hne hempty)
        rw [hcovered, Alert]
        simp only [ReaderTask.read, hempty]
        exact ⟨fun halert => halert.2.2, fun hc => ⟨h.1, h.2, hc⟩⟩
      · refine iff_of_true ?_ (.inl hempty)
        simp only [ReaderTask.read, if_neg hempty]
        exact h.1
  | waiting => exact iff_of_true h trivial
  | sending guard events => exact iff_of_true h trivial
  | clearing guard => exact iff_of_true h trivial
  | dead => exact iff_of_true h trivial

theorem Alert.clear (h : t.Alert) : t.clear.Alert := by
  rw [ReaderTask.clear]
  split
  · rename_i guard hplace
    rw [Alert, hplace] at h
    exact Readiness.clear_awake h.2.2
  · exact h

theorem Alert.restart (h : t.Alert) : t.restart.Alert := by
  rw [ReaderTask.restart]
  split
  · exact Readiness.watch_awake _
  · exact h

end ReaderTask

namespace Feed

variable (capacity : Option Nat) {f : Feed κ}

/-- The guard of a step: a read reads on. -/
def ReadsOn (f : Feed κ) : FeedStep κ → Prop
  | .read i outcome => (f.tasks i).ReadsOn outcome
  | _ => True

theorem step_alert (h : ∀ j, (f.tasks j).Alert) (a : FeedStep κ) (hok : f.ReadsOn a) (j : Nat) :
    ((f.step capacity a).tasks j).Alert := by
  refine step_task capacity (h j) (fun k _ => (h j).arrive k) (h j).poll (h j).wake (h j).fail
    (fun outcome ha => ?_) (fun guard events hplace => ?_) (h j).clear (fun _ => (h j).restart)
  · cases ha
    exact (ReaderTask.alert_read_iff (h j) outcome).2 hok
  · have hready := h j
    rw [ReaderTask.Alert, hplace] at hready
    exact ⟨trivial, .inr (.inl hready)⟩

theorem start_reads (queues : Nat → List κ) (j : Nat) : ((start queues).tasks j).Reads := rfl

theorem start_kept (queues : Nat → List κ) : (start queues).Kept := fun _ _ => rfl

theorem start_alert (queues : Nat → List κ) (j : Nat) : ((start queues).tasks j).Alert :=
  Readiness.watch_awake (queues j)

theorem run_reads (queues : Nat → List κ) (run : List (FeedStep κ)) :
    ∀ j, ((Run.exec (step capacity) (start queues) run).tasks j).Reads :=
  @Run.inv_exec _ _ (step capacity) (fun _ _ => True) (fun f => ∀ j, (f.tasks j).Reads)
    (fun _ a h _ => step_reads capacity h a) run _ (start_reads queues)
    (Run.Guarded.of_forall (fun _ _ => trivial) run _)

theorem run_kept (queues : Nat → List κ) (run : List (FeedStep κ)) :
    (Run.exec (step capacity) (start queues) run).Kept :=
  @Run.inv_exec _ _ (step capacity) (fun _ _ => True) Kept (fun _ a h _ => step_kept capacity h a) run _
    (start_kept queues) (Run.Guarded.of_forall (fun _ _ => trivial) run _)

theorem run_alert (queues : Nat → List κ) (run : List (FeedStep κ))
    (hguard : Run.Guarded (step capacity) ReadsOn (start queues) run) :
    ∀ j, ((Run.exec (step capacity) (start queues) run).tasks j).Alert :=
  @Run.inv_exec _ _ (step capacity) ReadsOn (fun f => ∀ j, (f.tasks j).Alert)
    (fun _ a h hok => step_alert capacity h a hok) run _ (start_alert queues) hguard

/-- Along every run, what has arrived for a group has been read or is queued, and the records of what has been
read are received, in the channel, or in hand: once each, and in their order. -/
theorem fed_exactly (queues : Nat → List κ) (run : List (FeedStep κ)) (i : Nat) :
    let f := Run.exec (step capacity) (start queues) run
    (f.tasks i).arrived = (f.tasks i).resolved.map Prod.fst ++ (f.tasks i).source.queue ∧
      (f.closed = false → decode_events ((f.tasks i).resolved.map Prod.snd) =
        of_group i f.received ++ of_group i f.channel ++ (f.tasks i).in_hand) := by
  intro f
  refine ⟨run_reads capacity queues run i, fun hopen => ?_⟩
  rw [← of_group_append]
  exact run_kept capacity queues run hopen i

/-- An alert task that nothing will wake has read everything, and sent it. -/
theorem drained {f : Feed κ} {i : Nat} (hreads : (f.tasks i).Reads) (hkept : f.Kept)
    (halert : (f.tasks i).Alert) (hopen : f.closed = false) (hplace : (f.tasks i).place = .waiting)
    (hready : (f.tasks i).source.ready = false) (hedge : (f.tasks i).source.edge = false) :
    (f.tasks i).arrived = (f.tasks i).resolved.map Prod.fst ∧
      decode_events ((f.tasks i).resolved.map Prod.snd) =
        of_group i f.received ++ of_group i f.channel := by
  rw [ReaderTask.Alert, hplace] at halert
  have hqueue : (f.tasks i).source.queue = [] := by
    rcases halert with h | h | h
    · exact h
    · rw [hready] at h
      cases h
    · rw [hedge] at h
      cases h
  have hhand : (f.tasks i).in_hand = [] := by rw [ReaderTask.in_hand, hplace]
  constructor
  · have harrived : (f.tasks i).arrived = (f.tasks i).resolved.map Prod.fst ++ (f.tasks i).source.queue := hreads
    rw [harrived, hqueue, List.append_nil]
  · rw [← of_group_append]
    exact (hkept hopen i).trans (by rw [hhand, List.append_nil])

/-- If no read comes back without records and leaves what it was announced, then a task that nothing will wake
has read all that has arrived for its group, and sent it. -/
theorem nothing_left (queues : Nat → List κ) (run : List (FeedStep κ))
    (hguard : Run.Guarded (step capacity) ReadsOn (start queues) run) (i : Nat) :
    let f := Run.exec (step capacity) (start queues) run
    f.closed = false → (f.tasks i).place = .waiting → (f.tasks i).source.ready = false →
      (f.tasks i).source.edge = false →
      (f.tasks i).arrived = (f.tasks i).resolved.map Prod.fst ∧
        decode_events ((f.tasks i).resolved.map Prod.snd) =
          of_group i f.received ++ of_group i f.channel := by
  intro f hopen hplace hready hedge
  exact drained (run_reads capacity queues run i) (run_kept capacity queues run)
    (run_alert capacity queues run hguard i) hopen hplace hready hedge

/-- An event as the cache resolves it. -/
def resolved_as (path : Option PathBuf) (_ : κ) : FidEvent := ⟨0x100, 1, path, none, none, 0⟩

/-- One event, read and received, and then a look at the empty queue. -/
theorem nothing_left_one : decode_events [resolved_as (some [[0x61]]) 7] =
    of_group 0 [(0, decode_events [resolved_as (some [[0x61]]) 7])] ++ of_group 0 [] :=
  (nothing_left none (fun _ => ([] : List Nat))
    [.arrive 0 7, .poll 0, .wake 0, .read 0 (.read 9 (resolved_as (some [[0x61]]))), .send 0, .recv, .wake 0,
      .read 0 (.read 9 (resolved_as (some [[0x61]]))), .clear 0]
    ⟨trivial, trivial, trivial, .inl (by decide), trivial, trivial, trivial, .inr (.inl rfl), trivial, trivial⟩
    0 rfl rfl rfl rfl).2

end Feed

/-! ## What a task sleeps on -/

namespace ReaderTask

variable {t : ReaderTask κ}

/-- A task that reads was woken by an announcement that is not older than the last. -/
def Woken (t : ReaderTask κ) : Prop :=
  match t.place with
  | .reading guard => guard ≤ t.source.tick
  | _ => True

theorem Woken.read (h : t.Woken) (outcome : ReadOutcome κ) : (t.read outcome).Woken := by
  obtain ⟨source, place, arrived, resolved⟩ := t
  cases place with
  | reading guard =>
      by_cases hempty : read_fid_events_cached source.queue outcome = []
      · simp only [ReaderTask.read, if_pos hempty]
        exact trivial
      · simp only [ReaderTask.read, if_neg hempty]
        exact trivial
  | waiting => exact h
  | sending guard events => exact h
  | clearing guard => exact h
  | dead => exact h

theorem Woken.poll (h : t.Woken) : Woken { t with source := t.source.poll } := by
  obtain ⟨source, place, arrived, resolved⟩ := t
  cases place with
  | reading guard => exact Nat.le_trans h (Readiness.poll_tick source)
  | waiting => exact h
  | sending guard events => exact h
  | clearing guard => exact h
  | dead => exact h

/-- The task is asleep or about to be, and this is in the queue. -/
def LeftAsleep (rest : List κ) (t : ReaderTask κ) : Prop :=
  t.source.queue = rest ∧ t.source.edge = false ∧
    match t.place with
    | .waiting => t.source.ready = false
    | .clearing guard => t.source.ready = true → t.source.tick = guard
    | .dead => True
    | .reading _ => False
    | .sending _ _ => False

/-- A read that does not read on leaves the task like this. -/
theorem left_asleep_of_read (h : t.Woken) {outcome : ReadOutcome κ} (hnot : ¬ t.ReadsOn outcome) :
    (t.read outcome).LeftAsleep (t.source.queue.drop (outcome.taken t.source.queue).length) ∧
      t.source.queue.drop (outcome.taken t.source.queue).length ≠ [] := by
  obtain ⟨source, place, arrived, resolved⟩ := t
  cases place with
  | reading guard =>
      obtain ⟨hempty, hcovered⟩ := not_or.1 hnot
      obtain ⟨hrest, hcovered⟩ := not_or.1 hcovered
      obtain ⟨hready, hedge⟩ := not_or.1 hcovered
      refine ⟨?_, hrest⟩
      simp only [ReaderTask.read, if_pos (not_not.1 hempty)]
      refine ⟨rfl, eq_false_of_ne_true hedge, fun hr => ?_⟩
      exact Nat.le_antisymm (Nat.not_lt.1 fun hlt => hready ⟨hr, hlt⟩) h
  | waiting => exact absurd trivial hnot
  | sending guard events => exact absurd trivial hnot
  | clearing guard => exact absurd trivial hnot
  | dead => exact absurd trivial hnot

theorem LeftAsleep.poll {rest : List κ} (h : t.LeftAsleep rest) :
    LeftAsleep rest { t with source := t.source.poll } := by
  have hpoll : t.source.poll = t.source := by
    rw [Source.poll, h.2.1]
    exact if_neg Bool.false_ne_true
  rw [hpoll]
  exact h

theorem LeftAsleep.wake {rest : List κ} (h : t.LeftAsleep rest) : t.wake.LeftAsleep rest := by
  rw [ReaderTask.wake]
  split
  · rename_i hplace
    have hready := h.2.2
    rw [hplace] at hready
    rw [if_neg (ne_true_of_eq_false hready)]
    exact h
  · exact h

theorem LeftAsleep.fail {rest : List κ} (h : t.LeftAsleep rest) : t.fail.LeftAsleep rest := by
  rw [ReaderTask.fail]
  split
  · exact ⟨h.1, h.2.1, trivial⟩
  · exact h

theorem LeftAsleep.read {rest : List κ} (h : t.LeftAsleep rest) (outcome : ReadOutcome κ) :
    (t.read outcome).LeftAsleep rest := by
  rw [ReaderTask.read]
  split
  · rename_i hplace
    have hfalse := h.2.2
    rw [hplace] at hfalse
    exact hfalse.elim
  · exact h

theorem LeftAsleep.clear {rest : List κ} (h : t.LeftAsleep rest) : t.clear.LeftAsleep rest := by
  rw [ReaderTask.clear]
  split
  · rename_i guard hplace
    have htick := h.2.2
    rw [hplace] at htick
    rw [Source.clear]
    split
    · exact ⟨h.1, h.2.1, rfl⟩
    · rename_i hne
      exact ⟨h.1, h.2.1, eq_false_of_ne_true fun hr => hne (htick hr)⟩
  · exact h

end ReaderTask

namespace Feed

variable (capacity : Option Nat) {f : Feed κ}

theorem run_woken (queues : Nat → List κ) (run : List (FeedStep κ)) :
    ∀ j, ((Run.exec (step capacity) (start queues) run).tasks j).Woken := by
  refine @Run.inv_exec _ _ (step capacity) (fun _ _ => True) (fun f => ∀ j, (f.tasks j).Woken)
    (fun f a h _ j => ?_) run _ (fun _ => trivial) (Run.Guarded.of_forall (fun _ _ => trivial) run _)
  refine step_task capacity (h j) (fun k _ => ?_) (h j).poll ?_ ?_ (fun outcome _ => (h j).read outcome)
    (fun _ _ _ => ⟨trivial, trivial⟩) ?_ (fun _ => ?_)
  · exact h j
  · rw [ReaderTask.wake]
    split
    · split
      · exact Nat.le_refl _
      · exact h j
    · exact h j
  · rw [ReaderTask.fail]
    split
    · exact trivial
    · exact h j
  · rw [ReaderTask.clear]
    split
    · exact trivial
    · exact h j
  · rw [ReaderTask.restart]
    split
    · exact trivial
    · exact h j

/-- A step that gives a group's task something new to look at. -/
def Rouses (i : Nat) (a : FeedStep κ) : Prop := (∃ k, a = .arrive i k) ∨ a = .restart i

/-- A read that comes back without records and leaves what it was announced: nothing that the task, the runtime,
the other tasks and the main loop do gets what it left out of the queue, until more arrives for the group. -/
theorem left_asleep (queues : Nat → List κ) (run : List (FeedStep κ)) (i : Nat) (outcome : ReadOutcome κ)
    (hnot : ¬ ((Run.exec (step capacity) (start queues) run).tasks i).ReadsOn outcome)
    (later : List (FeedStep κ)) (hquiet : ∀ a ∈ later, ¬ Rouses i a) :
    let before := ((Run.exec (step capacity) (start queues) run).tasks i).source.queue
    let after := Run.exec (step capacity) (start queues) (run ++ .read i outcome :: later)
    (after.tasks i).source.queue = before.drop (outcome.taken before).length ∧
      (after.tasks i).source.queue ≠ [] ∧ (after.tasks i).in_hand = [] := by
  intro before after
  have hafter : after = Run.exec (step capacity)
      ((Run.exec (step capacity) (start queues) run).step capacity (.read i outcome)) later :=
    Run.exec_append _ run (.read i outcome :: later)
  obtain ⟨hleft, hrest⟩ := ReaderTask.left_asleep_of_read (run_woken capacity queues run i) hnot
  have hread : (((Run.exec (step capacity) (start queues) run).step capacity (.read i outcome)).tasks i).LeftAsleep
      (before.drop (outcome.taken before).length) := by
    rw [step, put_tasks_self]
    exact hleft
  have hstay : (after.tasks i).LeftAsleep (before.drop (outcome.taken before).length) := by
    rw [hafter]
    refine @Run.inv_exec _ _ (step capacity) (fun _ a => ¬ Rouses i a)
      (fun f => (f.tasks i).LeftAsleep (before.drop (outcome.taken before).length)) (fun f a h hok => ?_)
      later _ hread (Run.Guarded.of_mem hquiet _)
    refine step_task capacity h (fun k ha => absurd (.inl ⟨k, ha⟩) hok) h.poll h.wake h.fail
      (fun outcome _ => h.read outcome) (fun guard events hplace => ?_) h.clear
      (fun ha => absurd (.inr ha) hok)
    have hfalse := h.2.2
    rw [hplace] at hfalse
    exact hfalse.elim
  refine ⟨hstay.1, by rw [hstay.1]; exact hrest, ?_⟩
  have hplace := hstay.2.2
  rw [ReaderTask.in_hand]
  split
  · rename_i hsending
    rw [hsending] at hplace
    exact hplace.elim
  · rfl

/-- Two events are there, the buffer takes one, and the cache cannot place it: the other stays, with the
runtime, the task and the main loop at work. -/
theorem left_asleep_second :
    let after := Run.exec (step none) (start fun _ => [7, 8]) ([.poll 0, .wake 0] ++
      .read 0 (.read 0 (resolved_as none)) :: [.clear 0, .poll 0, .wake 0, .recv, .poll 0, .wake 0])
    (after.tasks 0).source.queue = [8] :=
  (left_asleep none (fun _ => [7, 8]) [.poll 0, .wake 0] 0 (.read 0 (resolved_as none))
    (by
      rintro (h | h | ⟨-, h⟩ | h)
      · exact h rfl
      · cases h
      · exact absurd h (by decide)
      · cases h)
    [.clear 0, .poll 0, .wake 0, .recv, .poll 0, .wake 0]
    (by
      intro a ha hrouses
      rcases hrouses with ⟨k, rfl⟩ | rfl
      · simp at ha
      · simp at ha)).1

end Feed

end Fsmon
