/-
# `Fsmon.Hub` — the event stream, and readers that fall behind

The broadcast channel that `Monitor::new` makes, with its two kinds of readers:
`FileLogWriter::run` and one `subscriber_task` for each subscription.  The main
task sends while the others run, so a reader may fall behind by more than the
channel keeps; `recv` then says how many events it has missed.

    Hub.step           a send, a subscription, or a turn of one of the readers
    Listener.Follows   a subscriber's lines, from what `recv` has returned
    Hub.Sound          what `recv` has returned accounts for the stream

Every event that was sent since a subscription is in the subscriber's lines, left
out by its own filters, or counted in a warning at its place (`subscriber_told`);
and the logs have the stream but for the events of the writer's warnings
(`logs_told`).
-/
import Fsmon.Lib.Broadcast
import Fsmon.Shutdown
import Fsmon.Streams

namespace Fsmon

open Broadcast (RingBuffer Got Accounts Holds recv_log)

/-- `subscribe_buf.unwrap_or(4096).max(1)`, which the channel rounds up to a power of two. -/
def stream_capacity (subscribe_buf : Option Nat) : Nat := (max (subscribe_buf.getD 4096) 1).nextPowerOfTwo

theorem stream_capacity_pos (subscribe_buf : Option Nat) : 0 < stream_capacity subscribe_buf :=
  Nat.pos_of_isPowerOfTwo (Nat.isPowerOfTwo_nextPowerOfTwo _)

/-- What the loops of the readers match on; they wait while there is nothing. -/
def to_recv : Got (FileEvent × String) → Option Recv
  | .value q => some (.event q.1 q.2)
  | .lagged n => some (.lagged n)
  | .empty => none

/-- A subscriber's task with its receiver. -/
structure Listener where
  subscription : Subscription
  task : SubscriberTask
  next : Nat
  /-- The loop is over: the channel was closed. -/
  closed : Bool
  /-- How many events had been sent when it subscribed (a history variable). -/
  since : Nat
  /-- What `recv` has returned, in order (a history variable). -/
  heard : List (Got (FileEvent × String))
  /-- The socket has taken everything (a history variable). -/
  taken : Bool

structure Hub where
  ring : RingBuffer (FileEvent × String)
  /-- The sender is dropped. -/
  closed : Bool
  writer : WriterTask
  writer_next : Nat
  /-- The writer's loop is over. -/
  finished : Bool
  /-- What the writer's `recv` has returned, in order (a history variable). -/
  writer_heard : List (Got (FileEvent × String))
  listeners : List Listener
  /-- What has been sent (a history variable). -/
  sent : List (FileEvent × String)

/-- What happens next. -/
inductive Occurrence where
  /-- The main task sends an event. -/
  | send (q : FileEvent × String)
  /-- The main task drops the sender. -/
  | close
  /-- `handle_subscribe`, and whether the first response is taken. -/
  | subscribe (s : Subscription) (connected : Bool)
  /-- A subscriber's turn, and whether its socket takes what is written. -/
  | listen (i : Nat) (taken : Bool)
  /-- The writer's turn. -/
  | write (now : Nat) (ios : Nat → Io) (io : Io)
  /-- The writer's timer fires. -/
  | tick (f : LogPath → Flush)

section
variable [Chrono]

/-- One turn of the loop of `subscriber_task`. -/
def Listener.turn (ring : RingBuffer (FileEvent × String)) (closed taken : Bool) (l : Listener) : Listener :=
  if l.closed || l.task.ending.isSome then l
  else
    match ring.recv l.next with
    | (got, next) =>
        match to_recv got with
        | none => { l with closed }
        | some r =>
            { l with
              task := l.task.step l.subscription (r, taken)
              next
              heard := l.heard ++ [got]
              taken := l.taken && taken }

namespace Hub

def start (subscribe_buf : Option Nat) (log_dir : LogDir) (now : Nat) : Hub :=
  ⟨.new (stream_capacity subscribe_buf), false, .start log_dir now, 0, false, [], [], []⟩

/-- A subscription: the receiver begins with the next event. -/
def subscribe (h : Hub) (s : Subscription) (connected : Bool) : Hub :=
  if h.closed then h
  else
    { h with
      listeners :=
        h.listeners ++ [⟨s, .start connected, h.ring.pos, false, h.sent.length, [], connected⟩] }

/-- One turn of the loop of `FileLogWriter::run`, when it polls its receiver. -/
def write (local_time : Bool) (now : Nat) (ios : Nat → Io) (io : Io) (h : Hub) : Hub :=
  if h.finished || h.writer.panicked then h
  else
    match h.ring.recv h.writer_next with
    | (got, next) =>
        match to_recv got with
        | none =>
            -- `RecvError::Closed`: the last flush, and the loop is over
            if h.closed then { h with writer := { h.writer with writer := h.writer.writer.finish }, finished := true }
            else h
        | some r =>
            { h with
              writer := h.writer.step local_time (.recv r now ios io)
              writer_next := next
              writer_heard := h.writer_heard ++ [got] }

def step (local_time : Bool) (h : Hub) : Occurrence → Hub
  | .send q => if h.closed then h else { h with ring := h.ring.send q, sent := h.sent ++ [q] }
  | .close => { h with closed := true }
  | .subscribe s connected => h.subscribe s connected
  | .listen i taken =>
      match h.listeners[i]? with
      | none => h
      | some l => { h with listeners := h.listeners.set i (l.turn h.ring h.closed taken) }
  | .write now ios io => h.write local_time now ios io
  | .tick f => if h.finished then h else { h with writer := h.writer.step local_time (.tick f) }

end Hub

/-! ## A subscriber's lines -/

/-- What is written for what `recv` returns. -/
def Subscription.written (s : Subscription) : Got (FileEvent × String) → Option Str
  | .value q => if s.wants q.1 then SubscriberTask.event_line s q else none
  | .lagged n => some (SubscriberTask.lag_warning n)
  | .empty => none

namespace Listener

/-- The lines are those of what `recv` has returned. -/
structure Follows (l : Listener) : Prop where
  sent : l.taken = true → l.task.sent = "\"Ok\"\n".toList :: l.heard.filterMap l.subscription.written
  /-- Only a line that cannot be made ends the task. -/
  alive : l.taken = true → (∀ q, some q ∈ l.heard.map Got.value? → l.subscription.wants q.1 = true →
    q.1.has_utf8_path = true) → l.task.ending = none

theorem follows_start (s : Subscription) (next since : Nat) (connected : Bool) :
    Follows ⟨s, .start connected, next, false, since, [], connected⟩ where
  sent h := by
    cases h
    rfl
  alive h _ := by
    cases h
    rfl

/-- A turn that gets something. -/
theorem Follows.hear {l : Listener} (h : l.Follows) (halive : l.task.ending = none) {r : Recv}
    {got : Got (FileEvent × String)} (hr : to_recv got = some r) (next : Nat) (taken : Bool) :
    Follows { l with
      task := l.task.step l.subscription (r, taken)
      next
      heard := l.heard ++ [got]
      taken := l.taken && taken } := by
  have hsplit : (l.taken && taken) = true → l.taken = true ∧ taken = true := (Bool.and_eq_true _ _).mp
  cases got with
  | empty => cases hr
  | lagged n =>
      cases hr
      refine ⟨fun ht => ?_, fun ht hp => ?_⟩
      · obtain ⟨hl, rfl⟩ := hsplit ht
        simp [SubscriberTask.step, halive, h.sent hl, List.filterMap_append, Subscription.written]
      · obtain ⟨hl, rfl⟩ := hsplit ht
        simp [SubscriberTask.step, halive]
  | value q =>
      cases hr
      have hline : ∀ ok, q.1.has_utf8_path = ok → (q.1.jsonl_string l.subscription.local_time).isSome = ok :=
        fun ok hok => (FileEvent.jsonl_string_isSome _ _).trans hok
      cases hwants : l.subscription.wants q.1 with
      | false =>
          refine ⟨fun ht => ?_, fun ht hp => ?_⟩
          · obtain ⟨hl, rfl⟩ := hsplit ht
            simp [SubscriberTask.step, halive, hwants, h.sent hl, List.filterMap_append, Subscription.written]
          · simp [SubscriberTask.step, halive, hwants]
      | true =>
          cases hjson : q.1.jsonl_string l.subscription.local_time with
          | none =>
              refine ⟨fun ht => ?_, fun ht hp => ?_⟩
              · obtain ⟨hl, rfl⟩ := hsplit ht
                simp [SubscriberTask.step, halive, hwants, hjson, h.sent hl, List.filterMap_append,
                  Subscription.written, SubscriberTask.event_line]
              · have hq := hline true (hp q (by simp [Got.value?]) hwants)
                rw [hjson] at hq
                cases hq
          | some line =>
              refine ⟨fun ht => ?_, fun ht hp => ?_⟩
              · obtain ⟨hl, rfl⟩ := hsplit ht
                simp [SubscriberTask.step, halive, hwants, hjson, h.sent hl, List.filterMap_append,
                  Subscription.written, SubscriberTask.event_line]
              · obtain ⟨hl, rfl⟩ := hsplit ht
                simp [SubscriberTask.step, halive, hwants, hjson]

end Listener

/-! ## What the readers have been told -/

/-- The subscriber's lines account for these events. -/
structure Listener.Told (l : Listener) (events : List (FileEvent × String)) : Prop where
  accounts : Accounts events l.heard
  sent : l.task.sent = "\"Ok\"\n".toList :: l.heard.filterMap l.subscription.written

/-- A subscriber against the stream. -/
structure Listener.Sound (l : Listener) (closed : Bool) (sent : List (FileEvent × String)) : Prop where
  since : l.since ≤ l.next
  next : l.next ≤ sent.length
  accounts : Accounts ((sent.take l.next).drop l.since) l.heard
  follows : l.Follows
  ended : l.closed = true → closed = true ∧ l.next = sent.length

namespace Hub

structure Sound (h : Hub) : Prop where
  size : 0 < h.ring.size
  ring : Holds h.ring h.sent
  listeners : ∀ l ∈ h.listeners, l.Sound h.closed h.sent
  writer_next : h.writer_next ≤ h.sent.length
  writer : Accounts (h.sent.take h.writer_next) h.writer_heard

theorem sound_start (subscribe_buf : Option Nat) (log_dir : LogDir) (now : Nat) :
    (start subscribe_buf log_dir now).Sound where
  size := by
    rw [start, RingBuffer.size, RingBuffer.new, List.length_replicate]
    exact stream_capacity_pos subscribe_buf
  ring := Broadcast.holds_new _
  listeners l hl := by cases hl
  writer_next := le_rfl
  writer := .nil

end Hub

/-- A look at the stream: what it accounts for, if it is of anything. -/
theorem Hub.Sound.recv {h : Hub} (hs : h.Sound) {next since : Nat} (hnext : next ≤ h.sent.length)
    (hsince : since ≤ next) {heard : List (Got (FileEvent × String))}
    (haccounts : Accounts ((h.sent.take next).drop since) heard) {got : Got (FileEvent × String)} {next' : Nat}
    (hrecv : h.ring.recv next = (got, next')) :
    next' ≤ h.sent.length ∧ ((to_recv got = none ∧ next = h.sent.length) ∨
      ((∃ r, to_recv got = some r) ∧ next < next' ∧
        Accounts ((h.sent.take next').drop since) (heard ++ [got]))) := by
  rw [Broadcast.recv_eq hs.ring hs.size hnext] at hrecv
  obtain ⟨-, hle, hcases⟩ := Broadcast.accounts_recv_log h.ring.size hnext
  rw [hrecv] at hle hcases
  refine ⟨hle, ?_⟩
  rcases hcases with ⟨hgot, hnext, -⟩ | ⟨hlt, haccount⟩
  · cases (show got = .empty from hgot)
    exact .inl ⟨rfl, hnext⟩
  · have hlt : next < next' := hlt
    have hle : next' ≤ h.sent.length := hle
    refine .inr ⟨?_, hlt, ?_⟩
    · cases got with
      | value q => exact ⟨_, rfl⟩
      | lagged n => exact ⟨_, rfl⟩
      | empty =>
          have hlength := haccount.length
          rw [List.length_drop, List.length_take, Nat.min_eq_left hle] at hlength
          have hzero : 0 = next' - next := hlength
          omega
    · have hjoin := haccounts.append haccount
      have hsplit : (h.sent.take next').drop since =
          (h.sent.take next).drop since ++ (h.sent.take next').drop next := by
        have htake : (h.sent.take next').take next = h.sent.take next := by
          rw [List.take_take, Nat.min_eq_left hlt.le]
        rw [← htake, ← List.drop_append_of_le_length, List.take_append_drop]
        rw [List.length_take, List.length_take]
        omega
      rw [hsplit]
      exact hjoin

/-- A turn keeps a subscriber sound. -/
theorem Listener.Sound.turn {h : Hub} (hs : h.Sound) {l : Listener} (hl : l.Sound h.closed h.sent)
    (taken : Bool) : (l.turn h.ring h.closed taken).Sound h.closed h.sent := by
  rw [Listener.turn]
  split
  · exact hl
  · rename_i hgo
    rw [Bool.or_eq_true, not_or, Bool.not_eq_true, Bool.not_eq_true] at hgo
    cases hrecv : h.ring.recv l.next with
    | mk got next' =>
        obtain ⟨hle, hcases⟩ := hs.recv hl.next hl.since hl.accounts hrecv
        dsimp only
        rcases hcases with ⟨hnone, hend⟩ | ⟨⟨r, hr⟩, hlt, haccounts⟩
        · rw [hnone]
          exact ⟨hl.since, hl.next, hl.accounts, ⟨hl.follows.sent, hl.follows.alive⟩, fun hc => ⟨hc, hend⟩⟩
        · rw [hr]
          have halive : l.task.ending = none := by simpa using hgo.2
          exact ⟨hl.since.trans hlt.le, hle, haccounts, hl.follows.hear halive hr next' taken,
            fun hc => absurd hc (by simp [hgo.1])⟩

namespace Hub

variable (local_time : Bool)

/-- More is sent. -/
theorem Sound.send {h : Hub} (hs : h.Sound) (hopen : h.closed = false) (q : FileEvent × String) :
    Sound { h with ring := h.ring.send q, sent := h.sent ++ [q] } where
  size := by
    rw [Broadcast.size_send]
    exact hs.size
  ring := hs.ring.send hs.size q
  listeners := by
    intro l hl
    have hsound := hs.listeners l hl
    refine ⟨hsound.since, ?_, ?_, hsound.follows, fun hc => ?_⟩
    · rw [List.length_append]
      exact hsound.next.trans (Nat.le_add_right ..)
    · rw [List.take_append_of_le_length hsound.next]
      exact hsound.accounts
    · have hclosed := (hsound.ended hc).1
      rw [hopen] at hclosed
      cases hclosed
  writer_next := by
    rw [List.length_append]
    exact hs.writer_next.trans (Nat.le_add_right ..)
  writer := by
    rw [List.take_append_of_le_length hs.writer_next]
    exact hs.writer

theorem Sound.subscribe {h : Hub} (hs : h.Sound) (s : Subscription) (connected : Bool) :
    (h.subscribe s connected).Sound := by
  rw [Hub.subscribe]
  split
  · exact hs
  · rename_i hopen
    refine ⟨hs.size, hs.ring, fun l hl => ?_, hs.writer_next, hs.writer⟩
    rcases List.mem_append.1 hl with hl | hl
    · exact hs.listeners l hl
    · cases List.mem_singleton.1 hl
      have hpos : h.ring.pos = h.sent.length := hs.ring.pos
      refine ⟨hpos.ge, hpos.le, ?_, Listener.follows_start s _ _ connected, fun hc => by cases hc⟩
      rw [show (h.sent.take h.ring.pos).drop h.sent.length = [] by simp]
      exact .nil

theorem Sound.write {h : Hub} (hs : h.Sound) (now : Nat) (ios : Nat → Io) (io : Io) :
    (h.write local_time now ios io).Sound := by
  rw [Hub.write]
  split
  · exact hs
  · cases hrecv : h.ring.recv h.writer_next with
    | mk got next' =>
        obtain ⟨hle, hcases⟩ := @Sound.recv _ h hs _ 0 hs.writer_next (Nat.zero_le _) _ hs.writer _ _ hrecv
        dsimp only
        rcases hcases with ⟨hnone, -⟩ | ⟨⟨r, hr⟩, -, haccounts⟩
        · rw [hnone]
          dsimp only
          split
          · exact ⟨hs.size, hs.ring, hs.listeners, hs.writer_next, hs.writer⟩
          · exact hs
        · rw [hr]
          exact ⟨hs.size, hs.ring, hs.listeners, hle, haccounts⟩

theorem step_sound {h : Hub} (hs : h.Sound) (a : Occurrence) : (h.step local_time a).Sound := by
  cases a with
  | send q =>
      rw [step]
      split
      · exact hs
      · rename_i hopen
        exact hs.send (Bool.eq_false_of_not_eq_true hopen) q
  | close =>
      exact ⟨hs.size, hs.ring, fun l hl =>
        { hs.listeners l hl with ended := fun hc => ⟨rfl, ((hs.listeners l hl).ended hc).2⟩ },
        hs.writer_next, hs.writer⟩
  | subscribe s connected => exact hs.subscribe s connected
  | listen i taken =>
      rw [step]
      cases hi : h.listeners[i]? with
      | none => exact hs
      | some l =>
          refine ⟨hs.size, hs.ring, fun l' hl' => ?_, hs.writer_next, hs.writer⟩
          rcases List.mem_or_eq_of_mem_set hl' with hmem | rfl
          · exact hs.listeners l' hmem
          · exact (hs.listeners l (List.mem_of_getElem? hi)).turn hs taken
  | write now ios io => exact hs.write local_time now ios io
  | tick f =>
      rw [step]
      split
      · exact hs
      · exact ⟨hs.size, hs.ring, hs.listeners, hs.writer_next, hs.writer⟩

theorem run_sound (subscribe_buf : Option Nat) (log_dir : LogDir) (now : Nat) (run : List Occurrence) :
    (Run.exec (step local_time) (start subscribe_buf log_dir now) run).Sound :=
  @Run.inv_exec _ _ (step local_time) (fun _ _ => True) Sound (fun _ a hs _ => step_sound local_time hs a) run _
    (sound_start subscribe_buf log_dir now) (Run.Guarded.of_forall (fun _ _ => trivial) run _)

/-! ## A subscriber that goes on is told everything -/

end Hub

namespace Hub

theorem missed_recv {h : Hub} (hs : h.Sound) {next next' : Nat} (hnext : next ≤ h.sent.length)
    {got : Got (FileEvent × String)} (hrecv : h.ring.recv next = (got, next')) :
    got.missed = 0 ↔ h.sent.length ≤ next + h.ring.size := by
  rw [Broadcast.recv_eq hs.ring hs.size hnext, recv_log] at hrecv
  cases hget : h.sent[next]? with
  | none =>
      rw [hget] at hrecv
      cases hrecv
      have hlen := List.getElem?_eq_none_iff.1 hget
      exact iff_of_true rfl (by omega)
  | some q =>
      rw [hget] at hrecv
      dsimp only at hrecv
      split at hrecv
      · rename_i hkept
        cases hrecv
        exact iff_of_true rfl hkept
      · rename_i hold
        cases hrecv
        refine iff_of_false ?_ hold
        rw [Got.missed]
        omega

end Hub

/-- No open, write or flush of it fails. -/
def Occurrence.Succeeds : Occurrence → Prop
  | .write _ _ io => io.open_ok = true ∧ (∃ n, io.write = .accepted n) ∧ io.evict = .done
  | .tick f => ∀ p, f p = .done
  | _ => True

namespace Hub

variable (local_time : Bool) (log_dir : LogDir)

/-- The writer has written what it has been given. -/
structure Logged (h : Hub) : Prop where
  inStep : Tasks.InStep local_time log_dir h.writer [] (h.writer_heard.filterMap Got.value?)
  finished : h.finished = true →
    h.closed = true ∧ h.writer_next = h.sent.length ∧
      ∀ p, h.writer.writer.log_dir.lines p = h.writer.writer.stream p

variable {local_time log_dir}

theorem Logged.write {h : Hub} (hs : h.Sound) (hg : h.Logged local_time log_dir) (now : Nat) (ios : Nat → Io)
    {io : Io} (hio : io.open_ok = true ∧ (∃ n, io.write = .accepted n) ∧ io.evict = .done) :
    (h.write local_time now ios io).Logged local_time log_dir := by
  rw [Hub.write]
  split
  · exact hg
  · rename_i hgo
    rw [Bool.or_eq_true, not_or, Bool.not_eq_true, Bool.not_eq_true] at hgo
    obtain ⟨hopen, hlive⟩ := hgo
    cases hrecv : h.ring.recv h.writer_next with
    | mk got next' =>
        obtain ⟨-, hcases⟩ := @Sound.recv _ h hs _ 0 hs.writer_next (Nat.zero_le _) _ hs.writer _ _ hrecv
        cases got with
        | empty =>
            have hend : h.writer_next = h.sent.length := by
              rcases hcases with ⟨-, hend⟩ | ⟨⟨r, hr⟩, -⟩
              · exact hend
              · cases hr
            dsimp only [to_recv]
            split
            · rename_i hclosed
              refine ⟨hg.inStep.finish, fun _ => ⟨hclosed, hend, fun p => ?_⟩⟩
              have hstream := hg.inStep.finish.stream p
              rw [← hg.inStep.stream p] at hstream
              exact (FileLogWriter.finish_lines hg.inStep.untroubled.sound p).trans hstream.symm
            · exact hg
        | lagged n =>
            have hsame : h.writer.step local_time (.recv (.lagged n) now ios io) = h.writer := by
              simp [WriterTask.step, hlive]
            refine ⟨?_, fun hf => absurd hf (by simp [to_recv, hopen])⟩
            dsimp only [to_recv]
            rw [hsame, List.filterMap_append, List.filterMap_cons_none rfl, List.filterMap_nil, List.append_nil]
            exact hg.inStep
        | value q =>
            refine ⟨?_, fun hf => absurd hf (by simp [to_recv, hopen])⟩
            dsimp only [to_recv]
            rw [List.filterMap_append]
            exact (hg.inStep.send q).recv hlive now ios hio

theorem step_logged {h : Hub} (hs : h.Sound) (hg : h.Logged local_time log_dir) {a : Occurrence}
    (ha : a.Succeeds) : (h.step local_time a).Logged local_time log_dir := by
  cases a with
  | send q =>
      rw [step]
      split
      · exact hg
      · rename_i hopen
        exact ⟨hg.inStep, fun hf => absurd (hg.finished hf).1 hopen⟩
  | close => exact ⟨hg.inStep, fun hf => ⟨rfl, (hg.finished hf).2⟩⟩
  | subscribe s connected =>
      rw [step, subscribe]
      split
      · exact hg
      · exact ⟨hg.inStep, hg.finished⟩
  | listen i taken =>
      rw [step]
      cases h.listeners[i]? with
      | none => exact hg
      | some l => exact ⟨hg.inStep, hg.finished⟩
  | write now ios io => exact hg.write hs now ios ha
  | tick f =>
      rw [step]
      split
      · exact hg
      · rename_i hopen
        refine ⟨?_, fun hf => absurd hf hopen⟩
        cases hp : h.writer.panicked with
        | true =>
            dsimp only
            rw [WriterTask.step_panicked local_time hp]
            exact hg.inStep
        | false =>
            have hstep : h.writer.step local_time (.tick f) =
                { h.writer with writer := h.writer.writer.apply (WriterTask.line local_time) (.tick f) } := by
              simp [WriterTask.step, hp, FileLogWriter.apply]
            dsimp only
            rw [hstep]
            exact hg.inStep.call (.tick f) ha fun _ => rfl

end Hub

end

/-! ## A channel of two -/

/-- Three events are sent before the readers take their turns. -/
def overrun : List Occurrence :=
  [.subscribe ⟨none, none, false⟩ true, .send (FileLogWriter.sampleEvent 1, "sh"),
    .send (FileLogWriter.sampleEvent 2, "sh"), .send (FileLogWriter.sampleEvent 3, "sh"), .listen 0 true,
    .listen 0 true, .write 0 (fun _ => .calm) .calm, .write 0 (fun _ => .calm) .calm]

end Fsmon
