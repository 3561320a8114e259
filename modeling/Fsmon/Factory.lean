/-
# `Fsmon.Factory` — requests to the privileged child, and whose reply comes back

`FanotifyFactory::request` and `factory_child_main`: a socketpair that keeps
messages whole and in order, one request at a time behind a mutex.  The wire
carries no request ids; a request is its own only as long as nothing else is in
flight.  Here every message carries the number of its call, as a history
variable that no function reads.

    State.enter   `is_alive`, the check before the lock
    State.turn    what the holder of the lock does next
    State.serve   what the child does next
    Kept          a result is of the child's reply to that very call, and the
                  factory is given up only after the child has exited or been silent
    Orderly       what a step must not do

Three exits break it: a `poll` that is interrupted counts as silence, a
`recvmsg` that fails leaves its reply in the socket, and a call that was let in
before the factory was given up still sends.
-/
import Fsmon.Lib.Run

namespace Fsmon.Factory

/-! ## The wire protocol -/

def KIND_CREATE_GROUP : Nat := 1
def KIND_MARK : Nat := 2
def EINVAL : Nat := 22

/-- The request payload. -/
structure FactoryRequest where
  kind : Nat
  flags : Nat
  mark_flags : Nat
  count : Nat
  mask : Nat
  deriving DecidableEq, Repr

/-- A request with its descriptors, on the way to the child. -/
structure Packet where
  /-- The call it is from. -/
  call : Nat
  request : FactoryRequest
  fds : List Nat
  deriving DecidableEq, Repr

/-- A reply with its descriptors, on the way back. -/
structure Reply where
  /-- The call it answers. -/
  call : Nat
  status : Nat
  fds : List Nat
  deriving DecidableEq, Repr

/-- Why `request` fails. -/
inductive RequestError where
  | not_running
  | send_failed
  | no_answer
  | receive_failed
  | exited
  | failed (status : Nat)
  deriving DecidableEq, Repr

/-- What `request` makes of a reply of which it gets the first `got` descriptors. -/
def Reply.result (r : Reply) (got : Nat) : Except RequestError (List Nat) :=
  if r.status ≠ 0 then .error (.failed r.status) else .ok (r.fds.take got)

/-! ## The child -/

/-- What the system calls of the child return: an errno, or a descriptor. -/
structure Syscalls where
  fanotify_init : (flags : Nat) → Except Nat Nat
  /-- The errno, or zero. -/
  fanotify_mark : (fan_fd flags mask dirfd : Nat) → Nat

/-- `FAN_MARK_ADD`. -/
def FAN_MARK_ADD : Nat := 1

def create_group_and_mark (k : Syscalls) (req : FactoryRequest) (dirfd : Nat) : Nat × List Nat :=
  match k.fanotify_init req.flags with
  | .error errno => (errno, [])
  | .ok fan_fd =>
      let rc := k.fanotify_mark fan_fd FAN_MARK_ADD req.mask dirfd
      if rc ≠ 0 then (rc, []) else (0, [fan_fd])

/-- Every directory is tried, and the first error is the status. -/
def mark_dirs (k : Syscalls) (req : FactoryRequest) (fan_fd : Nat) (dirs : List Nat) : Nat × List Nat :=
  let errors := (dirs.map (k.fanotify_mark fan_fd req.mark_flags req.mask)).filter (· ≠ 0)
  (errors.head?.getD 0, [])

/-- One turn of the loop of `factory_child_main`, with the descriptors that came. -/
def answer (k : Syscalls) (req : FactoryRequest) (in_fds : List Nat) : Nat × List Nat :=
  match in_fds with
  | [] => (EINVAL, [])
  | fd :: fds =>
      if req.kind = KIND_CREATE_GROUP then create_group_and_mark k req fd
      else if req.kind = KIND_MARK then mark_dirs k req fd fds
      else (EINVAL, [])

inductive Child where
  | waiting
  /-- It has read a request and has not replied. -/
  | serving (p : Packet) (in_fds : List Nat)
  | exited
  deriving DecidableEq, Repr

def Child.serves : Child → List Packet
  | .serving p _ => [p]
  | .waiting | .exited => []

/-! ## The parent -/

/-- Where the holder of the lock stands in `request`. -/
inductive Point where
  /-- It has the lock. -/
  | locked
  /-- It has sent its request, and is in `wait_readable`. -/
  | sent
  /-- `wait_readable` has said yes. -/
  | readable
  /-- `wait_readable` has said no. -/
  | overdue
  /-- The factory is given up, and is killed next. -/
  | condemned
  /-- `recv_msg` has found the socket closed. -/
  | closed
  deriving DecidableEq, Repr

structure Returned where
  call : Nat
  result : Except RequestError (List Nat)

/-- A status or descriptors. -/
inductive Returned.FromReply (r : Returned) : Prop where
  | status (n : Nat) : r.result = .error (.failed n) → r.FromReply
  | descriptors (fds : List Nat) : r.result = .ok fds → r.FromReply

structure State where
  alive : Bool
  /-- The calls that have passed `is_alive` and wait for the lock. -/
  waiting : List Packet
  /-- The holder of the lock. -/
  sock : Option (Point × Packet)
  /-- On the way to the child. -/
  requests : List Packet
  child : Child
  /-- On the way back. -/
  replies : List Reply
  /-- The number of calls so far. -/
  calls : Nat
  /-- A `poll` has seen nothing for the full 30 seconds. -/
  silent : Bool
  /-- Every reply the child has sent. -/
  answered : List Reply
  returned : List Returned

/-- After the handshake. -/
def State.start : State := ⟨true, [], none, [], .waiting, [], 0, false, [], []⟩

/-- What `poll` returns: a positive number, zero after 30 seconds, or an error. -/
inductive Poll where
  | ready
  | timeout
  | failed
  deriving DecidableEq, Repr

/-- What the operating system answers to the calls of one turn. -/
structure Sys where
  /-- `sendmsg` takes the message. -/
  sendmsg : Bool
  poll : Poll
  /-- `recvmsg` takes a message, and that many of its descriptors find room. -/
  recvmsg : Option Nat
  syscalls : Syscalls

inductive Action where
  /-- A thread calls `request`. -/
  | enter (request : FactoryRequest) (fds : List Nat)
  /-- One of the waiting calls takes the lock. -/
  | lock (i : Nat)
  /-- The holder of the lock takes its next step. -/
  | turn (sys : Sys)
  /-- The child takes its next step. -/
  | serve (sys : Sys)
  /-- The child is killed, or dies. -/
  | die

namespace State

def enter (s : State) (request : FactoryRequest) (fds : List Nat) : State :=
  let s' := { s with calls := s.calls + 1 }
  if s.alive then { s' with waiting := s.waiting ++ [⟨s.calls, request, fds⟩] }
  else { s' with returned := s.returned ++ [⟨s.calls, .error .not_running⟩] }

def lock (s : State) (i : Nat) : State :=
  match s.sock, s.waiting[i]? with
  | none, some p => { s with sock := some (.locked, p), waiting := s.waiting.eraseIdx i }
  | _, _ => s

/-- `request` returns, and the lock is free. -/
def leave (s : State) (p : Packet) (result : Except RequestError (List Nat)) : State :=
  { s with sock := none, returned := s.returned ++ [⟨p.call, result⟩] }

/-- There is something to read, or the other end is closed. -/
def is_readable (s : State) : Bool := !s.replies.isEmpty || s.child = .exited

def turn (s : State) (sys : Sys) : State :=
  match s.sock with
  | none => s
  | some (.locked, p) =>
      if sys.sendmsg && s.child ≠ .exited then
        { s with sock := some (.sent, p), requests := s.requests ++ [p] }
      else s.leave p (.error .send_failed)
  | some (.sent, p) =>
      match sys.poll with
      | .ready => if s.is_readable then { s with sock := some (.readable, p) } else s
      | .timeout => if s.is_readable then s else { s with sock := some (.overdue, p), silent := true }
      -- `rc > 0` is all that is asked: an interrupted `poll` is a timeout too
      | .failed => { s with sock := some (.overdue, p) }
  | some (.overdue, p) => { s with sock := some (.condemned, p), alive := false }
  -- the SIGKILL is on its way; the child may still take a step before it dies
  | some (.condemned, p) => s.leave p (.error .no_answer)
  | some (.readable, p) =>
      match sys.recvmsg with
      | none => s.leave p (.error .receive_failed)
      | some got =>
          match s.replies with
          | r :: replies => { s with replies }.leave p (r.result got)
          | [] => if s.child = .exited then { s with sock := some (.closed, p) } else s
  | some (.closed, p) => { s with alive := false }.leave p (.error .exited)

/-- The end of the child: what it has not read is lost. -/
def die (s : State) : State := { s with child := .exited, requests := [] }

def serve (s : State) (sys : Sys) : State :=
  match s.child with
  | .exited => s
  | .waiting =>
      match s.requests with
      | [] => s
      | p :: requests =>
          match sys.recvmsg with
          | none => s.die
          | some got => { s with requests, child := .serving p (p.fds.take got) }
  | .serving p in_fds =>
      let (status, fds) := answer sys.syscalls p.request in_fds
      let r : Reply := ⟨p.call, status, fds⟩
      -- `send_reply` does not look whether the reply could be sent
      if sys.sendmsg then
        { s with child := .waiting, replies := s.replies ++ [r], answered := s.answered ++ [r] }
      else { s with child := .waiting }

def step (s : State) : Action → State
  | .enter request fds => s.enter request fds
  | .lock i => s.lock i
  | .turn sys => s.turn sys
  | .serve sys => s.serve sys
  | .die => s.die

/-! ## What the protocol keeps -/

structure Kept (s : State) : Prop where
  /-- A status or descriptors are of the child's reply to that very call. -/
  own : ∀ r ∈ s.returned, r.FromReply →
    ∃ reply ∈ s.answered, reply.call = r.call ∧ ∃ got, r.result = reply.result got
  /-- The factory is given up only when the child has exited or been silent. -/
  given_up : s.alive = false → s.child = .exited ∨ s.silent = true

/-- The holder of the lock sends only while the factory has not been given up, its `poll` fails only if
the child has exited, and its `recvmsg` only if there is no reply. -/
structure OrderlyTurn (s : State) (sys : Sys) : Prop where
  send : ∀ p, s.sock = some (.locked, p) → sys.sendmsg = true → s.alive = true ∨ s.child = .exited
  poll : ∀ p, s.sock = some (.sent, p) → sys.poll = .failed → s.child = .exited
  receive : ∀ p, s.sock = some (.readable, p) → sys.recvmsg = none → s.replies = []

def Orderly (s : State) : Action → Prop
  | .turn sys => s.OrderlyTurn sys
  | .enter .. | .lock _ | .serve _ | .die => True

/-! ## One request in flight -/

/-- The calls whose request or reply is under way, the oldest first. -/
def in_flight (s : State) : List Nat :=
  s.replies.map Reply.call ++ (s.child.serves.map Packet.call ++ s.requests.map Packet.call)

/-- What holds where the holder of the lock stands. -/
def Stands (s : State) : Option (Point × Packet) → Prop
  | none | some (.locked, _) => s.in_flight = [] ∨ s.child = .exited ∨ s.alive = false
  | some (.sent, p) => ∀ k ∈ s.in_flight, k = p.call
  | some (.readable, p) => (∀ k ∈ s.in_flight, k = p.call) ∧ (s.replies = [] → s.child = .exited)
  | some (.overdue, _) => s.child = .exited ∨ s.silent = true
  | some (.condemned, _) => s.alive = false
  | some (.closed, _) => s.child = .exited

structure Sound (s : State) : Prop where
  one : s.in_flight.length ≤ 1
  stands : s.Stands s.sock
  /-- What is on the way back has been sent. -/
  sent : ∀ r ∈ s.replies, r ∈ s.answered
  kept : s.Kept

/-- No result is added, and the factory is not given up. -/
theorem Kept.same {s s' : State} (h : s.Kept) (hreturned : s'.returned = s.returned)
    (hanswered : ∀ r ∈ s.answered, r ∈ s'.answered) (halive : s'.alive = s.alive)
    (hover : s.child = .exited ∨ s.silent = true → s'.child = .exited ∨ s'.silent = true) : s'.Kept where
  own r hr hfrom := by
    rw [hreturned] at hr
    obtain ⟨reply, hreply, hown⟩ := h.own r hr hfrom
    exact ⟨reply, hanswered reply hreply, hown⟩
  given_up hgone := by
    rw [halive] at hgone
    exact hover (h.given_up hgone)

/-- A call that returns without a reply. -/
theorem Kept.leave {s : State} (h : s.Kept) (p : Packet) {e : RequestError} (he : ∀ n, e ≠ .failed n) :
    (s.leave p (.error e)).Kept where
  own r hr hfrom := by
    rcases List.mem_append.1 hr with hr | hr
    · exact h.own r hr hfrom
    · cases List.mem_singleton.1 hr
      cases hfrom with
      | status n hn => exact absurd (Except.error.inj hn) (he n)
      | descriptors fds hfds => cases hfds
  given_up := h.given_up

/-- A call that returns with its own reply. -/
theorem Kept.leave_reply {s : State} (h : s.Kept) {p : Packet} {r : Reply} (hr : r ∈ s.answered)
    (hown : r.call = p.call) (got : Nat) : (s.leave p (r.result got)).Kept where
  own ret hret hfrom := by
    rcases List.mem_append.1 hret with hret | hret
    · exact h.own ret hret hfrom
    · cases List.mem_singleton.1 hret
      exact ⟨r, hr, hown, got, rfl⟩
  given_up := h.given_up

/-- A step that is not of the holder of the lock: less in flight, and the child no more alive. -/
theorem Stands.mono {s s' : State} {o : Option (Point × Packet)} (h : s.Stands o)
    (hflight : ∀ k ∈ s'.in_flight, k ∈ s.in_flight) (hreplies : s'.replies = [] → s.replies = [])
    (hchild : s.child = .exited → s'.child = .exited) (halive : s.alive = false → s'.alive = false)
    (hsilent : s.silent = true → s'.silent = true) : s'.Stands o := by
  have hquiet : s.in_flight = [] ∨ s.child = .exited ∨ s.alive = false →
      s'.in_flight = [] ∨ s'.child = .exited ∨ s'.alive = false := by
    rintro (hnone | hdead | hgone)
    · exact Or.inl (List.eq_nil_iff_forall_not_mem.2 fun k hk => by simpa [hnone] using hflight k hk)
    · exact Or.inr (Or.inl (hchild hdead))
    · exact Or.inr (Or.inr (halive hgone))
  rcases o with _ | ⟨point, p⟩
  · exact hquiet h
  · cases point with
    | locked => exact hquiet h
    | sent => exact fun k hk => h k (hflight k hk)
    | readable => exact ⟨fun k hk => h.1 k (hflight k hk), fun hno => hchild (h.2 (hreplies hno))⟩
    | overdue => exact h.imp hchild hsilent
    | condemned => exact halive h
    | closed => exact hchild h

theorem sound_start : start.Sound where
  one := Nat.zero_le 1
  stands := Or.inl rfl
  sent r hr := absurd hr List.not_mem_nil
  kept := ⟨fun r hr => absurd hr List.not_mem_nil, fun h => by cases h⟩

/-! ## One step -/

variable {s : State}

theorem sound_enter (h : s.Sound) (request : FactoryRequest) (fds : List Nat) :
    (s.enter request fds).Sound := by
  rw [enter]
  split
  · exact ⟨h.one, h.stands.mono (fun _ hk => hk) id id id id, h.sent,
      h.kept.same rfl (fun _ hr => hr) rfl id⟩
  · refine ⟨h.one, h.stands.mono (fun _ hk => hk) id id id id, h.sent, ?_, h.kept.given_up⟩
    exact (h.kept.leave ⟨s.calls, request, fds⟩ (e := .not_running) (fun n hn => by cases hn)).own

theorem sound_lock (h : s.Sound) (i : Nat) : (s.lock i).Sound := by
  rw [lock]
  split
  · next p hsock _ =>
    have hstands := h.stands
    rw [hsock] at hstands
    exact ⟨h.one, hstands, h.sent, h.kept.same rfl (fun _ hr => hr) rfl id⟩
  · exact h

theorem sound_die (h : s.Sound) : s.die.Sound := by
  have hflight : s.die.in_flight = s.replies.map Reply.call := by simp [in_flight, die, Child.serves]
  have hsub : ∀ k ∈ s.die.in_flight, k ∈ s.in_flight := fun k hk => by
    rw [hflight] at hk
    exact List.mem_append_left _ hk
  refine ⟨?_, h.stands.mono hsub id (fun _ => rfl) id id, h.sent,
    h.kept.same rfl (fun _ hr => hr) rfl fun _ => Or.inl rfl⟩
  have hone := h.one
  rw [in_flight, List.length_append] at hone
  rw [hflight]
  omega

theorem sound_serve (h : s.Sound) (sys : Sys) : (s.serve sys).Sound := by
  rw [serve]
  cases hchild : s.child with
  | exited => exact h
  | waiting =>
      simp only
      cases hrequests : s.requests with
      | nil => exact h
      | cons p requests =>
          simp only
          cases sys.recvmsg with
          | none => exact sound_die h
          | some got =>
              have hflight :
                  in_flight { s with requests, child := .serving p (p.fds.take got) } = s.in_flight := by
                simp [in_flight, hchild, hrequests, Child.serves]
              refine ⟨hflight ▸ h.one,
                h.stands.mono (fun k hk => hflight ▸ hk) id (fun hdead => ?_) id id, h.sent,
                h.kept.same rfl (fun _ hr => hr) rfl (Or.imp_left fun hdead => ?_)⟩
              all_goals
                rw [hchild] at hdead
                cases hdead
  | serving p in_fds =>
      have hdead : ¬ s.child = .exited := fun hdead => by
        rw [hchild] at hdead
        cases hdead
      simp only
      generalize answer sys.syscalls p.request in_fds = reply
      obtain ⟨status, fds⟩ := reply
      simp only
      split
      · have hflight :
            in_flight { s with child := .waiting, replies := s.replies ++ [⟨p.call, status, fds⟩] } =
              s.in_flight := by
          simp [in_flight, hchild, Child.serves]
        refine ⟨hflight ▸ h.one,
          h.stands.mono (fun k hk => hflight ▸ hk) (fun hno => ?_) (absurd · hdead) id id,
          fun r hr => ?_,
          h.kept.same rfl (fun r hr => List.mem_append_left _ hr) rfl (Or.imp_left (absurd · hdead))⟩
        · simp at hno
        · rcases List.mem_append.1 hr with hr | hr
          · exact List.mem_append_left _ (h.sent r hr)
          · exact List.mem_append_right _ hr
      · have hflight : in_flight { s with child := .waiting } =
            s.replies.map Reply.call ++ s.requests.map Packet.call := rfl
        have hbefore : s.in_flight =
            s.replies.map Reply.call ++ (p.call :: s.requests.map Packet.call) := by
          rw [in_flight, hchild]
          rfl
        refine ⟨?_, h.stands.mono (fun k hk => ?_) id (absurd · hdead) id id, h.sent,
          h.kept.same rfl (fun _ hr => hr) rfl (Or.imp_left (absurd · hdead))⟩
        · have hone := h.one
          rw [hbefore] at hone
          rw [hflight]
          simp only [List.length_append, List.length_cons] at hone ⊢
          omega
        · rw [hflight] at hk
          rw [hbefore]
          rcases List.mem_append.1 hk with hk | hk
          · exact List.mem_append_left _ hk
          · exact List.mem_append_right _ (List.mem_cons_of_mem _ hk)

/-- **The holder's turn.** -/
theorem sound_turn (h : s.Sound) {sys : Sys} (horderly : s.OrderlyTurn sys) : (s.turn sys).Sound := by
  have hstands := h.stands
  rw [turn]
  cases hsock : s.sock with
  | none => exact h
  | some q =>
      obtain ⟨point, p⟩ := q
      rw [hsock] at hstands
      cases point with
      | locked =>
          simp only
          split
          · next hsend =>
            obtain ⟨hsent, hlive⟩ : sys.sendmsg = true ∧ s.child ≠ .exited := by simpa using hsend
            have halive := (horderly.send p hsock hsent).resolve_right hlive
            -- nothing was in flight, so all that is in flight is this request
            have hnone : s.in_flight = [] := by
              rcases hstands with hnone | hdead | hgone
              · exact hnone
              · exact absurd hdead hlive
              · rw [halive] at hgone
                cases hgone
            have hflight :
                in_flight { s with sock := some (.sent, p), requests := s.requests ++ [p] } =
                  [p.call] := by
              rw [in_flight] at hnone ⊢
              simp only [List.map_append, ← List.append_assoc] at hnone ⊢
              rw [hnone]
              rfl
            refine ⟨by rw [hflight]; exact Nat.le_refl 1, fun k hk => ?_, h.sent,
              h.kept.same rfl (fun _ hr => hr) rfl id⟩
            rw [hflight] at hk
            exact List.mem_singleton.1 hk
          · exact ⟨h.one, hstands, h.sent, h.kept.leave p fun n hn => by cases hn⟩
      | sent =>
          simp only
          cases hpoll : sys.poll with
          | ready =>
              simp only
              split
              · next hready =>
                refine ⟨h.one, ⟨hstands, fun hno => ?_⟩, h.sent,
                  h.kept.same rfl (fun _ hr => hr) rfl id⟩
                have hno : s.replies = [] := hno
                simpa [is_readable, hno] using hready
              · exact h
          | timeout =>
              simp only
              split
              · exact h
              · exact ⟨h.one, Or.inr rfl, h.sent,
                  h.kept.same rfl (fun _ hr => hr) rfl fun _ => Or.inr rfl⟩
          | failed =>
              exact ⟨h.one, Or.inl (horderly.poll p hsock hpoll), h.sent,
                h.kept.same rfl (fun _ hr => hr) rfl id⟩
      | overdue => exact ⟨h.one, rfl, h.sent, h.kept.own, fun _ => hstands⟩
      | condemned =>
          exact ⟨h.one, Or.inr (Or.inr hstands), h.sent, h.kept.leave p fun n hn => by cases hn⟩
      | closed =>
          refine ⟨h.one, Or.inr (Or.inl hstands), h.sent, ?_, fun _ => Or.inl hstands⟩
          exact (h.kept.leave p (e := .exited) fun n hn => by cases hn).own
      | readable =>
          simp only
          cases hrecv : sys.recvmsg with
          | none =>
              have hdead := hstands.2 (horderly.receive p hsock hrecv)
              exact ⟨h.one, Or.inr (Or.inl hdead), h.sent, h.kept.leave p fun n hn => by cases hn⟩
          | some got =>
              simp only
              cases hreplies : s.replies with
              | nil =>
                  simp only
                  split
                  · next hdead =>
                    rw [← hreplies]
                    exact ⟨h.one, hdead, h.sent, h.kept.same rfl (fun _ hr => hr) rfl id⟩
                  · exact h
              | cons r replies =>
                  have hflight : s.in_flight = r.call :: in_flight { s with replies } := by
                    rw [in_flight, hreplies]
                    rfl
                  have hrest : in_flight { s with replies } = [] := by
                    have hone := h.one
                    rw [hflight, List.length_cons] at hone
                    exact List.length_eq_zero_iff.1 (by omega)
                  have hown : r.call = p.call :=
                    hstands.1 r.call (by rw [hflight]; exact List.mem_cons_self)
                  have hall : ∀ r' ∈ r :: replies, r' ∈ s.answered := hreplies ▸ h.sent
                  refine ⟨?_, Or.inl hrest, fun r' hr' => hall r' (List.mem_cons_of_mem _ hr'), ?_⟩
                  · show (in_flight { s with replies }).length ≤ 1
                    rw [hrest]
                    exact Nat.zero_le 1
                  · exact (h.kept.leave_reply (hall r List.mem_cons_self) hown got).same rfl
                      (fun _ hr => hr) rfl id

theorem sound_step (s : State) (a : Action) (h : s.Sound) (horderly : s.Orderly a) :
    (s.step a).Sound := by
  cases a with
  | enter request fds => exact sound_enter h request fds
  | lock i => exact sound_lock h i
  | turn sys => exact sound_turn h horderly
  | serve sys => exact sound_serve h sys
  | die => exact sound_die h

end State

/-! ## Over runs -/

/-- **The protocol is kept** in every state of a run whose steps are orderly. -/
theorem protocol_kept (run : List Action) (hrun : Run.Guarded State.step State.Orderly .start run) :
    (Run.exec State.step .start run).Kept :=
  (Run.inv_exec State.sound_step run _ State.sound_start hrun).kept

/-! ## Three runs -/

/-- Every call succeeds, and the child's new group has descriptor 7. -/
def well : Sys := ⟨true, .ready, some 1, ⟨fun _ => .ok 7, fun _ _ _ _ => 0⟩⟩

def group_request : FactoryRequest := ⟨KIND_CREATE_GROUP, 0, FAN_MARK_ADD, 1, 0⟩

/-- Two calls at once: the first has the lock until its reply is read, then the second. -/
def inTurn : List Action :=
  [.enter group_request [3], .enter group_request [4], .lock 0, .turn well, .serve well, .serve well,
    .turn well, .turn well, .lock 0, .turn well, .serve well, .serve well, .turn well, .turn well]

theorem orderly_well {s : State} (h : s.alive = true) : s.OrderlyTurn well :=
  ⟨fun _ _ _ => Or.inl h, fun _ _ hpoll => (by cases hpoll), fun _ _ hrecv => (by cases hrecv)⟩

theorem protocol_kept_inTurn : (Run.exec State.step .start inTurn).Kept :=
  protocol_kept inTurn ⟨trivial, trivial, trivial, orderly_well rfl, trivial, trivial, orderly_well rfl,
    orderly_well rfl, trivial, orderly_well rfl, trivial, trivial, orderly_well rfl, orderly_well rfl,
    trivial⟩

/-- The first `poll` is interrupted. -/
def interrupted : List Action :=
  [.enter group_request [3], .lock 0, .turn well, .turn { well with poll := .failed }, .turn well]

/-- The first `recvmsg` fails, and its reply is read by the next call. -/
def unread : List Action :=
  [.enter group_request [3], .enter group_request [4], .lock 0, .turn well, .serve well, .serve well,
    .turn well, .turn { well with recvmsg := none }, .lock 0, .turn well, .turn well, .turn well]

/-- The child answers just after the 30 seconds; the second call was let in before. -/
def late : List Action :=
  [.enter group_request [3], .enter group_request [4], .lock 0, .turn well, .turn { well with poll := .timeout },
    .turn well, .turn well, .serve well, .serve well, .lock 0, .turn well, .turn well, .turn well]

/-- The second call returns a descriptor, and the child has answered the first call only. -/
theorem not_own {run : List Action} (hret : ⟨1, .ok [7]⟩ ∈ (Run.exec State.step .start run).returned)
    (hanswered : ∀ r ∈ (Run.exec State.step .start run).answered, r.call = 0) :
    ¬ (Run.exec State.step .start run).Kept := by
  intro h
  obtain ⟨reply, hreply, hcall, _⟩ := h.own _ hret (.descriptors [7] rfl)
  rw [hanswered reply hreply] at hcall
  cases hcall

/-- An interrupted `poll` gives the factory up; a failed `recvmsg` and a late reply hand the second
call the reply to the first. -/
theorem replies_mixed :
    ¬ (Run.exec State.step .start interrupted).Kept ∧ ¬ (Run.exec State.step .start unread).Kept ∧
      ¬ (Run.exec State.step .start late).Kept := by
  refine ⟨fun h => ?_, not_own (List.mem_cons_of_mem _ List.mem_cons_self) ?_,
    not_own (List.mem_cons_of_mem _ List.mem_cons_self) ?_⟩
  · rcases h.given_up rfl with hdead | hsilent
    · cases hdead
    · cases hsilent
  all_goals
    intro r hr
    cases List.mem_singleton.1 hr
    rfl

end Fsmon.Factory
