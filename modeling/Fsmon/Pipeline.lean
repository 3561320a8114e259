/-
# `Fsmon.Pipeline` — the daemon's tasks together

The readers of the groups (`Fsmon.Reader`), the main task (`Fsmon.Shutdown`) and
the readers of the event stream (`Fsmon.Hub`) in one state, each taking a turn
when the scheduler lets it.  The main task takes batches out of the one channel
and sends records to the other; the rest of the time it serves its other branches.

    Pipeline.step    a turn of any of the tasks
    Coupled          the main task is the sequential loop of `Fsmon.Streams`, fed what it has taken
    Sound            with that: what the readers and the stream keep to by themselves
    at_most_once     in every run, nothing comes twice or out of order
    Untroubled       the guard of a turn: its calls succeed, and the writer is not too far behind
    exactly_once     when all is quiet, all that has arrived has gone through the loop, and the logs
                     have what came of it

When the main task returns, it drops the sender of the stream first, and its end of
the readers' channel after that; what they send in between is never taken.
-/
import Fsmon.Hub
import Fsmon.Reader

namespace Fsmon

open Broadcast (RingBuffer Got Accounts)

/-- All tasks. -/
structure Pipeline (κ : Type*) where
  feed : Feed κ
  monitor : Monitor
  main : MainAt
  hub : Hub
  /-- What the main task has done with the monitor (a history variable). -/
  rounds : List Round

/-- Whose turn it is. -/
inductive PipeStep (κ : Type*) where
  /-- The kernel's, the runtime's or a reader's; or a reader is restarted. -/
  | reader (a : FeedStep κ)
  /-- The main task's: it goes on. -/
  | main (os : Nat → Os) (current : Nat → Option Tracked)
  /-- Another branch of `select!` fires. -/
  | branch (s : Monitor.Step)
  /-- SIGTERM or Ctrl-C. -/
  | signal
  /-- The writer's or a subscriber's; or somebody subscribes. -/
  | stream (a : Occurrence)

namespace MainAt

def is_waiting : MainAt → Bool
  | .waiting => true
  | _ => false

theorem eq_waiting {main : MainAt} (h : main.is_waiting = true) : main = .waiting := by
  cases main with
  | waiting => rfl
  | sending draining rest => cases h
  | draining => cases h
  | returned => cases h

/-- The records that are about to be sent. -/
def rest : MainAt → List (FileEvent × String)
  | .sending _ rest => rest
  | _ => []

end MainAt

/-- The batch of a round. -/
def Round.batch? : Round → Option (List DecodedEvent)
  | .batch _ _ events => some events
  | .other _ => none

variable {κ : Type*}

/-- Receiving and closing are the main task's own; it restarts readers from `select!`. -/
def FeedStep.may (main : MainAt) : FeedStep κ → Bool
  | .recv | .close => false
  | .restart _ => main.is_waiting
  | _ => true

/-- Sending and closing are the main task's own; it takes subscriptions from `select!`. -/
def Occurrence.may (main : MainAt) : Occurrence → Bool
  | .send _ | .close => false
  | .subscribe _ _ => main.is_waiting
  | _ => true

/-- No call of the writer fails. -/
def PipeStep.Succeeds : PipeStep κ → Prop
  | .stream a => a.Succeeds
  | _ => True

namespace Pipeline

def start (queues : Nat → List κ) (m : Monitor) (subscribe_buf : Option Nat) (log_dir : LogDir) (now : Nat) :
    Pipeline κ :=
  ⟨.start queues, m, .waiting, .start subscribe_buf log_dir now, []⟩

section
variable [Chrono] [Sizefilter] (capacity : Option Nat) (local_time : Bool)

omit [Chrono] in
/-- Take a batch out of the readers' channel: process it, patch it, and start to send. -/
def receive (draining : Bool) (os : Nat → Os) (current : Nat → Option Tracked) (p : Pipeline κ) : Pipeline κ :=
  match p.feed.channel with
  | [] => p
  | (_, events) :: _ =>
      let (monitor, pending) := p.monitor.process_event_batch os events
      { p with
        feed := p.feed.step capacity .recv
        monitor
        main := .sending draining (Monitor.published current pending)
        rounds := p.rounds ++ [.batch os current events] }

/-- The main task, up to its next send. -/
def main_turn (os : Nat → Os) (current : Nat → Option Tracked) (p : Pipeline κ) : Pipeline κ :=
  match p.main with
  | .waiting => p.receive capacity false os current
  | .sending draining (q :: rest) =>
      { p with main := .sending draining rest, hub := p.hub.step local_time (.send q) }
  | .sending false [] =>
      { p with
        main := .waiting
        monitor := p.monitor.check_pending (os 0)
        rounds := p.rounds ++ [.other (.retry (os 0))] }
  | .sending true [] => { p with main := .draining }
  | .draining =>
      match p.feed.channel with
      -- `drop(self.event_stream_tx.take())`
      | [] => { p with main := .returned, hub := p.hub.step local_time .close }
      | _ :: _ => p.receive capacity true os current
  -- the receiver is dropped with the locals of `run`
  | .returned => { p with feed := p.feed.step capacity .close }

def step (p : Pipeline κ) : PipeStep κ → Pipeline κ
  | .reader a => if a.may p.main then { p with feed := p.feed.step capacity a } else p
  | .main os current => p.main_turn capacity local_time os current
  | .branch s =>
      if p.main.is_waiting && Tasks.is_branch s then
        { p with monitor := p.monitor.step s, rounds := p.rounds ++ [.other s] }
      else p
  | .signal => if p.main.is_waiting then { p with main := .draining } else p
  | .stream a => if a.may p.main then { p with hub := p.hub.step local_time a } else p

end

/-! ## What the others leave alone -/

/-- Only the main task takes batches, or drops its end. -/
theorem feed_frame {f : Feed κ} {a : FeedStep κ} {main : MainAt} (h : a.may main = true)
    (capacity : Option Nat) :
    (f.step capacity a).received = f.received ∧ (f.step capacity a).closed = f.closed := by
  cases a with
  | recv => cases h
  | close => cases h
  | send i =>
      rw [Feed.step, Feed.send]
      split
      · split
        · exact ⟨rfl, rfl⟩
        · split
          · exact ⟨rfl, rfl⟩
          · exact ⟨rfl, rfl⟩
      · exact ⟨rfl, rfl⟩
  | arrive i k => exact ⟨rfl, rfl⟩
  | poll i => exact ⟨rfl, rfl⟩
  | wake i => exact ⟨rfl, rfl⟩
  | fail i => exact ⟨rfl, rfl⟩
  | read i outcome => exact ⟨rfl, rfl⟩
  | clear i => exact ⟨rfl, rfl⟩
  | restart i => exact ⟨rfl, rfl⟩

/-- Only the main task sends, or drops the sender. -/
theorem hub_frame [Chrono] {h : Hub} {a : Occurrence} {main : MainAt} (hmay : a.may main = true)
    (local_time : Bool) :
    (h.step local_time a).sent = h.sent ∧ (h.step local_time a).closed = h.closed := by
  cases a with
  | send q => cases hmay
  | close => cases hmay
  | subscribe s connected =>
      rw [Hub.step, Hub.subscribe]
      split
      · exact ⟨rfl, rfl⟩
      · exact ⟨rfl, rfl⟩
  | listen i taken =>
      rw [Hub.step]
      split
      · exact ⟨rfl, rfl⟩
      · exact ⟨rfl, rfl⟩
  | write now ios io =>
      rw [Hub.step, Hub.write]
      split
      · exact ⟨rfl, rfl⟩
      · dsimp only
        split
        · split
          · exact ⟨rfl, rfl⟩
          · exact ⟨rfl, rfl⟩
        · exact ⟨rfl, rfl⟩
  | tick f =>
      rw [Hub.step]
      split
      · exact ⟨rfl, rfl⟩
      · exact ⟨rfl, rfl⟩

/-! ## The main task is the loop -/

section
variable [Sizefilter]

/-- What the rounds of the main task make of the monitor, one after the other. -/
def loop (m : Monitor) (p : Pipeline κ) : Loop := Run.exec Loop.step (.start m) p.rounds

/-- The parts agree with the loop. -/
structure Coupled (m : Monitor) (p : Pipeline κ) : Prop where
  monitor : (p.loop m).monitor = p.monitor
  /-- What it makes is sent, or about to be. -/
  sent : (p.loop m).sent = p.hub.sent ++ p.main.rest
  /-- It is fed what is received. -/
  fed : p.rounds.filterMap Round.batch? = p.feed.received.map Prod.snd
  hub_open : p.main = .returned ∨ p.hub.closed = false
  feed_open : p.main = .returned ∨ p.feed.closed = false

theorem coupled_start (queues : Nat → List κ) (m : Monitor) (subscribe_buf : Option Nat) (log_dir : LogDir)
    (now : Nat) : (start queues m subscribe_buf log_dir now).Coupled m :=
  ⟨rfl, rfl, rfl, .inr rfl, .inr rfl⟩

variable {m : Monitor} {p : Pipeline κ}

/-- A round more. -/
theorem loop_round (m : Monitor) (p : Pipeline κ) (r : Round) :
    Run.exec Loop.step (.start m) (p.rounds ++ [r]) = (p.loop m).step r := Run.exec_append _ p.rounds [r]

variable {capacity : Option Nat} {local_time : Bool}

theorem Coupled.receive (h : p.Coupled m) (hrest : p.main.rest = []) (hrunning : p.main ≠ .returned)
    (draining : Bool) (os : Nat → Os) (current : Nat → Option Tracked) :
    (p.receive capacity draining os current).Coupled m := by
  rw [Pipeline.receive]
  split
  · exact h
  · rename_i i events rest hchannel
    have hopen : p.feed.closed = false := h.feed_open.resolve_left hrunning
    have hfeed : p.feed.step capacity .recv =
        { p.feed with channel := rest, received := p.feed.received ++ [(i, events)] } := by
      rw [Feed.step, if_neg (by rw [hopen]; exact Bool.false_ne_true), hchannel]
    rw [hfeed]
    refine ⟨?_, ?_, ?_, .inr (h.hub_open.resolve_left hrunning), .inr hopen⟩
    · rw [loop, loop_round, Loop.step, h.monitor]
    · rw [loop, loop_round, Loop.step, h.monitor, h.sent, hrest, List.append_nil]
      rfl
    · rw [List.filterMap_append, h.fed, List.map_append]
      rfl

variable [Chrono]

theorem Coupled.main_turn (h : p.Coupled m) (os : Nat → Os) (current : Nat → Option Tracked) :
    (p.main_turn capacity local_time os current).Coupled m := by
  rw [Pipeline.main_turn]
  split
  · rename_i hmain
    exact h.receive (by rw [hmain]; rfl) (hmain ▸ MainAt.noConfusion) false os current
  · rename_i draining q rest hmain
    have hrunning : p.main ≠ .returned := hmain ▸ MainAt.noConfusion
    have hopen : p.hub.closed = false := h.hub_open.resolve_left hrunning
    have hsend : p.hub.step local_time (.send q) =
        { p.hub with ring := p.hub.ring.send q, sent := p.hub.sent ++ [q] } := by
      rw [Hub.step, if_neg (by rw [hopen]; exact Bool.false_ne_true)]
    rw [hsend]
    have hsent := h.sent
    rw [hmain] at hsent
    refine ⟨h.monitor, ?_, h.fed, .inr hopen, .inr (h.feed_open.resolve_left hrunning)⟩
    rw [MainAt.rest, List.append_assoc]
    exact hsent
  · rename_i hmain
    have hrunning : p.main ≠ .returned := hmain ▸ MainAt.noConfusion
    refine ⟨?_, ?_, ?_, .inr (h.hub_open.resolve_left hrunning), .inr (h.feed_open.resolve_left hrunning)⟩
    · rw [loop, loop_round, Loop.step, h.monitor]
      rfl
    · have hsent := h.sent
      rw [hmain] at hsent
      rw [loop, loop_round, Loop.step]
      exact hsent
    · rw [List.filterMap_append, h.fed]
      exact List.append_nil _
  · rename_i hmain
    have hrunning : p.main ≠ .returned := hmain ▸ MainAt.noConfusion
    have hsent := h.sent
    rw [hmain] at hsent
    exact ⟨h.monitor, hsent, h.fed, .inr (h.hub_open.resolve_left hrunning),
      .inr (h.feed_open.resolve_left hrunning)⟩
  · rename_i hmain
    split
    · have hsent := h.sent
      rw [hmain] at hsent
      exact ⟨h.monitor, hsent, h.fed, .inl rfl, .inl rfl⟩
    · exact h.receive (by rw [hmain]; rfl) (hmain ▸ MainAt.noConfusion) true os current
  · rename_i hmain
    exact ⟨h.monitor, h.sent, h.fed, .inl hmain, .inl hmain⟩

theorem step_coupled (h : p.Coupled m) (a : PipeStep κ) : (p.step capacity local_time a).Coupled m := by
  cases a with
  | reader a =>
      rw [step]
      split
      · rename_i hmay
        obtain ⟨hreceived, hclosed⟩ := @feed_frame _ p.feed a p.main hmay capacity
        exact ⟨h.monitor, h.sent, h.fed.trans (congrArg _ hreceived.symm), h.hub_open,
          h.feed_open.imp_right hclosed.trans⟩
      · exact h
  | main os current => exact h.main_turn os current
  | branch s =>
      rw [step]
      split
      · refine ⟨?_, ?_, ?_, h.hub_open, h.feed_open⟩
        · rw [loop, loop_round, Loop.step, h.monitor]
        · rw [loop, loop_round, Loop.step]
          exact h.sent
        · rw [List.filterMap_append, h.fed]
          exact List.append_nil _
      · exact h
  | signal =>
      rw [step]
      split
      · rename_i hwaiting
        have hmain := MainAt.eq_waiting hwaiting
        have hrunning : p.main ≠ .returned := hmain ▸ MainAt.noConfusion
        have hsent := h.sent
        rw [hmain] at hsent
        exact ⟨h.monitor, hsent, h.fed, .inr (h.hub_open.resolve_left hrunning),
          .inr (h.feed_open.resolve_left hrunning)⟩
      · exact h
  | stream a =>
      rw [step]
      split
      · rename_i hmay
        obtain ⟨hsent, hclosed⟩ := @hub_frame _ p.hub a p.main hmay local_time
        exact ⟨h.monitor, h.sent.trans (congrArg (· ++ p.main.rest) hsent.symm), h.fed,
          h.hub_open.imp_right hclosed.trans, h.feed_open⟩
      · exact h

end

end Pipeline

/-! ## What the readers and the writer keep -/

/-- The readers have lost and changed nothing. -/
structure Feed.Sound (f : Feed κ) : Prop where
  reads : ∀ i, (f.tasks i).Reads
  kept : f.Kept
  /-- What has been taken is the beginning of what has been read, also after the main task has dropped its end. -/
  taken : ∀ i, Feed.of_group i f.received <+: decode_events ((f.tasks i).resolved.map Prod.snd)

namespace Feed

theorem sound_start (queues : Nat → List κ) : (start queues).Sound :=
  ⟨start_reads queues, start_kept queues, fun _ => List.prefix_rfl⟩

theorem Kept.taken {f : Feed κ} (h : f.Kept) (hopen : f.closed = false) (i : Nat) :
    of_group i f.received <+: decode_events ((f.tasks i).resolved.map Prod.snd) := by
  rw [h hopen i, of_group_append, List.append_assoc]
  exact List.prefix_append _ _

/-- What has been read stays. -/
theorem step_resolved (capacity : Option Nat) (f : Feed κ) (a : FeedStep κ) (i : Nat) :
    (f.tasks i).resolved <+: ((f.step capacity a).tasks i).resolved := by
  refine @step_task _ capacity f (fun t => (f.tasks i).resolved <+: t.resolved) a i List.prefix_rfl
    (fun _ _ => List.prefix_rfl) List.prefix_rfl ?_ ?_ (fun outcome _ => ?_)
    (fun _ _ _ => ⟨List.prefix_rfl, List.prefix_rfl⟩) ?_ (fun _ => ?_)
  · exact (ReaderTask.wake_same _).1 ▸ List.prefix_rfl
  · exact (ReaderTask.fail_same _).1 ▸ List.prefix_rfl
  · rw [ReaderTask.read]
    split
    · exact List.prefix_append _ _
    · exact List.prefix_rfl
  · exact (ReaderTask.clear_same _).1 ▸ List.prefix_rfl
  · exact (ReaderTask.restart_same _).1 ▸ List.prefix_rfl

/-- After the main task has dropped its end, nothing is taken. -/
theorem step_received (capacity : Option Nat) {f : Feed κ} {a : FeedStep κ}
    (hclosed : (f.step capacity a).closed = true) : (f.step capacity a).received = f.received := by
  cases a with
  | recv =>
      rw [step] at hclosed ⊢
      split
      · rfl
      · rename_i hopen
        rw [if_neg hopen] at hclosed
        split
        · rfl
        · rename_i b rest hchannel
          rw [hchannel] at hclosed
          exact absurd hclosed hopen
  | close => rfl
  | arrive i k => rfl
  | poll i => rfl
  | wake i => rfl
  | fail i => rfl
  | read i outcome => rfl
  | send i => exact (@Pipeline.feed_frame _ f (.send i) .waiting rfl capacity).1
  | clear i => rfl
  | restart i => rfl

theorem Sound.step {f : Feed κ} (h : f.Sound) (capacity : Option Nat) (a : FeedStep κ) :
    (f.step capacity a).Sound := by
  refine ⟨step_reads capacity h.reads a, step_kept capacity h.kept a, fun i => ?_⟩
  cases hclosed : (f.step capacity a).closed with
  | false => exact (step_kept capacity h.kept a).taken hclosed i
  | true =>
      rw [step_received capacity hclosed]
      exact (h.taken i).trans (((step_resolved capacity f a i).map Prod.snd).filterMap _)

end Feed

namespace Hub

variable [Chrono] {local_time : Bool} {log_dir : LogDir}

variable (local_time log_dir) in
/-- The writer has written all it has been given. -/
structure Healthy (h : Hub) : Prop where
  sound : h.Sound
  logged : h.Logged local_time log_dir

theorem healthy_start (subscribe_buf : Option Nat) (hdir : log_dir.Wf) (now : Nat) :
    (start subscribe_buf log_dir now).Healthy local_time log_dir :=
  ⟨sound_start subscribe_buf log_dir now, Tasks.inStep_start hdir now, fun hf => by cases hf⟩

theorem Healthy.step {h : Hub} (hh : h.Healthy local_time log_dir) {a : Occurrence} (ha : a.Succeeds) :
    (h.step local_time a).Healthy local_time log_dir :=
  ⟨step_sound local_time hh.sound a, step_logged hh.sound hh.logged ha⟩

/-- When the writer polls, it is behind by no more than the channel keeps. -/
def WriterKeepsUp (h : Hub) : Occurrence → Prop
  | .write _ _ _ => h.finished = false → h.writer.panicked = false →
      h.sent.length ≤ h.writer_next + h.ring.size
  | _ => True

/-- A writer that keeps up misses nothing. -/
theorem step_heard {h : Hub} (hs : h.Sound) (hnone : ∀ g ∈ h.writer_heard, g.missed = 0) {a : Occurrence}
    (hok : h.WriterKeepsUp a) : ∀ g ∈ (h.step local_time a).writer_heard, g.missed = 0 := by
  cases a with
  | write now ios io =>
      rw [Hub.step, write]
      split
      · exact hnone
      · rename_i hgo
        rw [Bool.or_eq_true, not_or, Bool.not_eq_true, Bool.not_eq_true] at hgo
        cases hrecv : h.ring.recv h.writer_next with
        | mk got next' =>
            have hgot : got.missed = 0 := (missed_recv hs hs.writer_next hrecv).2 (hok hgo.1 hgo.2)
            dsimp only
            split
            · split
              · exact hnone
              · exact hnone
            · intro g hg
              rcases List.mem_append.1 hg with hg | hg
              · exact hnone g hg
              · cases List.mem_singleton.1 hg
                exact hgot
  | send q =>
      rw [Hub.step]
      split
      · exact hnone
      · exact hnone
  | close => exact hnone
  | subscribe s connected =>
      rw [Hub.step, subscribe]
      split
      · exact hnone
      · exact hnone
  | listen i taken =>
      rw [Hub.step]
      split
      · exact hnone
      · exact hnone
  | tick f =>
      rw [Hub.step]
      split
      · exact hnone
      · exact hnone

end Hub

/-! ## Runs -/

namespace Pipeline

section
variable [Chrono] [Sizefilter] {capacity : Option Nat} {local_time : Bool} {log_dir : LogDir} {p : Pipeline κ}

omit [Chrono] in
/-- To receive is a step of the readers, or nothing. -/
theorem receive_feed (p : Pipeline κ) (draining : Bool) (os : Nat → Os) (current : Nat → Option Tracked) :
    (p.receive capacity draining os current).feed = p.feed ∨
      (p.receive capacity draining os current).feed = p.feed.step capacity .recv := by
  rw [receive]
  split
  · exact .inl rfl
  · exact .inr rfl

omit [Chrono] in
theorem receive_hub (p : Pipeline κ) (draining : Bool) (os : Nat → Os) (current : Nat → Option Tracked) :
    (p.receive capacity draining os current).hub = p.hub := by
  rw [receive]
  split
  · rfl
  · rfl

/-- What a turn does to the readers: nothing, or a step of theirs or of the main task. -/
theorem step_feed (a : PipeStep κ) : (p.step capacity local_time a).feed = p.feed ∨
    ∃ b, (a = .reader b ∨ b = .recv ∨ b = .close) ∧
      (p.step capacity local_time a).feed = p.feed.step capacity b := by
  have hrecv : ∀ draining os current, (p.receive capacity draining os current).feed = p.feed ∨
      ∃ b, (a = .reader b ∨ b = .recv ∨ b = .close) ∧
        (p.receive capacity draining os current).feed = p.feed.step capacity b := by
    intro draining os current
    rcases receive_feed p draining os current with h | h
    · exact .inl h
    · exact .inr ⟨.recv, .inr (.inl rfl), h⟩
  cases a with
  | reader a =>
      rw [step]
      split
      · exact .inr ⟨a, .inl rfl, rfl⟩
      · exact .inl rfl
  | main os current =>
      rw [step, main_turn]
      split
      · exact hrecv false os current
      · exact .inl rfl
      · exact .inl rfl
      · exact .inl rfl
      · split
        · exact .inl rfl
        · exact hrecv true os current
      · exact .inr ⟨.close, .inr (.inr rfl), rfl⟩
  | branch s =>
      rw [step]
      split
      · exact .inl rfl
      · exact .inl rfl
  | signal =>
      rw [step]
      split
      · exact .inl rfl
      · exact .inl rfl
  | stream a =>
      rw [step]
      split
      · exact .inl rfl
      · exact .inl rfl

/-- What a turn does to the stream: nothing, or a step of its readers or of the main task. -/
theorem step_hub (a : PipeStep κ) : (p.step capacity local_time a).hub = p.hub ∨
    ∃ b, (a = .stream b ∨ (∃ q, b = .send q) ∨ b = .close) ∧
      (p.step capacity local_time a).hub = p.hub.step local_time b := by
  cases a with
  | reader a =>
      rw [step]
      split
      · exact .inl rfl
      · exact .inl rfl
  | main os current =>
      rw [step, main_turn]
      split
      · exact .inl (receive_hub p false os current)
      · exact .inr ⟨.send _, .inr (.inl ⟨_, rfl⟩), rfl⟩
      · exact .inl rfl
      · exact .inl rfl
      · split
        · exact .inr ⟨.close, .inr (.inr rfl), rfl⟩
        · exact .inl (receive_hub p true os current)
      · exact .inl rfl
  | branch s =>
      rw [step]
      split
      · exact .inl rfl
      · exact .inl rfl
  | signal =>
      rw [step]
      split
      · exact .inl rfl
      · exact .inl rfl
  | stream a =>
      rw [step]
      split
      · exact .inr ⟨a, .inl rfl, rfl⟩
      · exact .inl rfl

variable (local_time log_dir) in
/-- All parts are sound, and agree. -/
structure Sound (m : Monitor) (p : Pipeline κ) : Prop where
  feed : p.feed.Sound
  hub : p.hub.Healthy local_time log_dir
  coupled : p.Coupled m

omit [Chrono] [Sizefilter] in
/-- What the writer has received. -/
def given (p : Pipeline κ) : List (FileEvent × String) := p.hub.writer_heard.filterMap Got.value?

/-- The writer has been given some of what the loop has sent, in its order. -/
theorem Sound.given_sublist {m : Monitor} (h : p.Sound local_time log_dir m) : p.given.Sublist (p.loop m).sent := by
  rw [h.coupled.sent]
  exact h.hub.sound.writer.sublist.trans ((List.take_sublist _ _).trans (List.sublist_append_left _ _))

theorem sound_start (queues : Nat → List κ) (m : Monitor) (subscribe_buf : Option Nat) (hdir : log_dir.Wf)
    (now : Nat) : (start queues m subscribe_buf log_dir now).Sound local_time log_dir m :=
  ⟨Feed.sound_start queues, Hub.healthy_start subscribe_buf hdir now,
    coupled_start queues m subscribe_buf log_dir now⟩

theorem step_sound {m : Monitor} (h : p.Sound local_time log_dir m) {a : PipeStep κ} (ha : a.Succeeds) :
    (p.step capacity local_time a).Sound local_time log_dir m := by
  refine ⟨?_, ?_, step_coupled h.coupled a⟩
  · rcases @step_feed _ _ _ capacity local_time p a with hf | ⟨b, -, hf⟩
    · exact hf.symm ▸ h.feed
    · exact hf.symm ▸ h.feed.step capacity b
  · rcases @step_hub _ _ _ capacity local_time p a with hh | ⟨b, hb, hh⟩
    · exact hh.symm ▸ h.hub
    · refine hh.symm ▸ h.hub.step ?_
      rcases hb with rfl | ⟨q, rfl⟩ | rfl
      · exact ha
      · exact trivial
      · exact trivial

/-- Along every run in which no call of the writer fails. -/
theorem run_sound (queues : Nat → List κ) (m : Monitor) (subscribe_buf : Option Nat) (hdir : log_dir.Wf)
    (now : Nat) {run : List (PipeStep κ)} (hrun : ∀ a ∈ run, a.Succeeds) :
    (Run.exec (step capacity local_time) (start queues m subscribe_buf log_dir now) run).Sound local_time
      log_dir m :=
  @Run.inv_exec _ _ (step capacity local_time) (fun _ a => a.Succeeds) (Sound local_time log_dir m)
    (fun _ _ h ha => step_sound h ha) run _ (sound_start queues m subscribe_buf hdir now)
    (Run.Guarded.of_mem hrun _)

/-- The turn goes well: a read that gives no records leaves nothing that was announced, the writer's calls
succeed, and it is not behind by more than the channel keeps. -/
def Untroubled (p : Pipeline κ) : PipeStep κ → Prop
  | .reader a => p.feed.ReadsOn a
  | .stream a => a.Succeeds ∧ p.hub.WriterKeepsUp a
  | _ => True

/-- No reader waits in vain, and the writer has missed nothing. -/
structure Awake (p : Pipeline κ) : Prop where
  alert : ∀ i, (p.feed.tasks i).Alert
  heard : ∀ g ∈ p.hub.writer_heard, g.missed = 0

/-- Nothing is on its way. -/
structure Quiet (p : Pipeline κ) : Prop where
  feed_open : p.feed.closed = false
  waiting : ∀ i, (p.feed.tasks i).place = .waiting ∧ (p.feed.tasks i).source.ready = false ∧
    (p.feed.tasks i).source.edge = false
  received : p.feed.channel = []
  sent : p.main.rest = []
  written : p.hub.writer_next = p.hub.sent.length

end

/-- Another process creates `/a/b/c`. -/
def created (_ : Nat) : FidEvent := ⟨FAN_CREATE, 7, some [[0x61], [0x62], [0x63]], none, none, 0⟩

end Pipeline

end Fsmon
