/-
# `Fsmon.Factory.Child` — the child's descriptors and its replies

The loop of `factory_child_main`, with the table of open descriptors: a message
brings descriptors, `fanotify_init` makes one, and `close_fds` gives back what came.

    FactoryChild.handle   one message, short or not
    serve_spec            a request is answered once, as `answer` says, and leaves the
                          table as it is
    AnswersOnce           a message is answered once and leaves the table as it found
                          it; an empty one, or none, ends the child
    child_answers_once    over every run

The parent's numbers are little-endian on both architectures the filter knows.
-/
import Fsmon.Factory
import Fsmon.Text
import Fsmon.Lib.FdTable
import Mathlib.Algebra.Ring.Nat
import Mathlib.Data.List.Nodup

namespace Fsmon.Factory

/-! ## The payload -/

def REQ_SIZE : Nat := 24
def MAX_FDS : Nat := 64
def MAX_IN_FDS : Nat := MAX_FDS

/-- A number in `k` bytes. -/
def to_le : Nat → Nat → Bytes
  | 0, _ => []
  | k + 1, n => UInt8.ofNat n :: to_le k (n / 256)

def of_le (bytes : Bytes) : Nat := bytes.foldr (fun b n => b.toNat + 256 * n) 0

@[simp] theorem length_to_le : ∀ k n, (to_le k n).length = k := by
  intro k
  induction k with
  | zero =>
      intro n
      rfl
  | succ k ih =>
      intro n
      rw [to_le, List.length_cons, ih]

theorem of_le_to_le : ∀ k n, of_le (to_le k n) = n % 256 ^ k := by
  intro k
  induction k with
  | zero =>
      intro n
      exact (Nat.mod_one n).symm
  | succ k ih =>
      intro n
      have hrest := ih (n / 256)
      show (UInt8.ofNat n).toNat + 256 * of_le (to_le k (n / 256)) = _
      rw [hrest, Nat.pow_succ', Nat.mod_mul]
      rfl

theorem take_to_le (k n : Nat) (rest : Bytes) : (to_le k n ++ rest).take k = to_le k n :=
  List.take_left' (length_to_le k n)

theorem drop_to_le (k n m : Nat) (rest : Bytes) : (to_le k n ++ rest).drop (k + m) = rest.drop m := by
  rw [← List.drop_drop, List.drop_left' (length_to_le k n)]

namespace FactoryRequest

/-- The request as the parent's memory has it. -/
def to_bytes (r : FactoryRequest) : Bytes :=
  to_le 4 r.kind ++ (to_le 4 r.flags ++ (to_le 4 r.mark_flags ++ (to_le 4 r.count ++ to_le 8 r.mask)))

/-- `ptr::read_unaligned`. -/
def of_bytes (p : Bytes) : FactoryRequest where
  kind := of_le (p.take 4)
  flags := of_le ((p.drop 4).take 4)
  mark_flags := of_le ((p.drop 8).take 4)
  count := of_le ((p.drop 12).take 4)
  mask := of_le ((p.drop 16).take 8)

/-- The fields' widths. -/
structure Fits (r : FactoryRequest) : Prop where
  kind : r.kind < 2 ^ 32
  flags : r.flags < 2 ^ 32
  mark_flags : r.mark_flags < 2 ^ 32
  count : r.count < 2 ^ 32
  mask : r.mask < 2 ^ 64

@[simp] theorem length_to_bytes (r : FactoryRequest) : r.to_bytes.length = REQ_SIZE := by
  simp [to_bytes, REQ_SIZE]

/-- The child reads what the parent wrote. -/
theorem of_bytes_to_bytes {r : FactoryRequest} (h : r.Fits) : of_bytes r.to_bytes = r := by
  have hfield : ∀ {k n : Nat}, n < 256 ^ k → of_le (to_le k n) = n := fun hn => by
    rw [of_le_to_le, Nat.mod_eq_of_lt hn]
  obtain ⟨kind, flags, mark_flags, count, mask⟩ := r
  have hkind := @hfield 4 kind h.kind
  have hflags := @hfield 4 flags h.flags
  have hmark := @hfield 4 mark_flags h.mark_flags
  have hcount := @hfield 4 count h.count
  have hmask := @hfield 8 mask h.mask
  rw [of_bytes, to_bytes, take_to_le, drop_to_le 4 _ 0, drop_to_le 4 _ 4, drop_to_le 4 _ 8, drop_to_le 4 _ 12,
    drop_to_le 4 _ 0, drop_to_le 4 _ 4, drop_to_le 4 _ 8, drop_to_le 4 _ 0, drop_to_le 4 _ 4, drop_to_le 4 _ 0]
  simp only [List.drop_zero]
  rw [take_to_le, take_to_le, take_to_le, List.take_of_length_le (Nat.le_of_eq (length_to_le 8 _))]
  rw [hkind, hflags, hmark, hcount, hmask]

end FactoryRequest

/-! ## The loop -/

/-- An open file. -/
abbrev FileId := Nat

/-- What the system calls return while a message is handled. -/
structure Outcomes where
  /-- An errno, or the new group. -/
  fanotify_init : Except Nat FileId
  /-- By the place of the directory's descriptor in the message: an errno, or zero. -/
  fanotify_mark : Nat → Nat
  /-- The reply goes out. -/
  sendmsg : Bool

/-- A reply that was tried. -/
structure Answer where
  status : Nat
  fds : List Nat
  sent : Bool
  deriving DecidableEq, Repr

/-- A call of `fanotify_mark`. -/
structure Attempt where
  group : Option FileId
  flags : Nat
  mask : Nat
  dir : Option FileId
  /-- Zero if it succeeded. -/
  errno : Nat
  deriving DecidableEq, Repr

structure FactoryChild where
  fds : FdTable FileId
  exited : Bool
  /-- Oldest first (a history variable, as is the next). -/
  answers : List Answer
  attempts : List Attempt

/-- A message with the descriptors that arrive, or a `recvmsg` that fails. -/
inductive Incoming where
  | message (payload : Bytes) (files : List FileId) (outcomes : Outcomes)
  | failed

/-- The message is empty, or there is none. -/
def Incoming.ends : Incoming → Bool
  | .message payload _ _ => payload.isEmpty
  | .failed => true

namespace FactoryChild

/-- The child at the start of its loop. -/
def start (fds : FdTable FileId) : FactoryChild := ⟨fds, false, [], []⟩

/-- `send_reply`; whether it went out is not looked at. -/
def send_reply (c : FactoryChild) (o : Outcomes) (status : Nat) (fds : List Nat) : FactoryChild :=
  { c with answers := c.answers ++ [⟨status, fds, o.sendmsg⟩] }

def close_fds (c : FactoryChild) (fds : List Nat) : FactoryChild := { c with fds := c.fds.close_all fds }

/-- The call of `fanotify_mark` for the descriptor at a place of the message. -/
def fanotify_mark (c : FactoryChild) (o : Outcomes) (fan_fd flags mask dirfd place : Nat) : FactoryChild :=
  { c with
    attempts := c.attempts ++ [⟨c.fds.get fan_fd, flags, mask, c.fds.get dirfd, o.fanotify_mark place⟩] }

def create_group_and_mark (k : Numbering FileId) (o : Outcomes) (c : FactoryChild) (req : FactoryRequest)
    (dirfd : Nat) : FactoryChild :=
  match o.fanotify_init with
  | .error errno => c.send_reply o errno []
  | .ok group =>
      let fan_fd := k.unused c.fds.opened
      let c := { c with fds := c.fds.add fan_fd group }.fanotify_mark o fan_fd FAN_MARK_ADD req.mask dirfd 0
      if o.fanotify_mark 0 ≠ 0 then (c.send_reply o (o.fanotify_mark 0) []).close_fds [fan_fd]
      else (c.send_reply o 0 [fan_fd]).close_fds [fan_fd]

/-- One turn of the loop of `mark_dirs`, with `first_error`. -/
def mark_dir (o : Outcomes) (req : FactoryRequest) (fan_fd : Nat) (acc : FactoryChild × Nat)
    (dir : Nat × Nat) : FactoryChild × Nat :=
  let (c, first_error) := acc
  (c.fanotify_mark o fan_fd req.mark_flags req.mask dir.1 dir.2,
    if o.fanotify_mark dir.2 ≠ 0 && first_error = 0 then o.fanotify_mark dir.2 else first_error)

def mark_dirs (o : Outcomes) (c : FactoryChild) (req : FactoryRequest) (fan_fd : Nat) (dirs : List Nat) :
    FactoryChild :=
  let (c, first_error) := (dirs.zipIdx 1).foldl (mark_dir o req fan_fd) (c, 0)
  c.send_reply o first_error []

/-- The branches of the request's kind. -/
def serve (k : Numbering FileId) (o : Outcomes) (c : FactoryChild) (req : FactoryRequest) (in_fds : List Nat) :
    FactoryChild :=
  if req.kind = KIND_CREATE_GROUP then
    match in_fds with
    | [] => c.send_reply o EINVAL []
    | dirfd :: _ => c.create_group_and_mark k o req dirfd
  else if req.kind = KIND_MARK then
    match in_fds with
    | [] => c.send_reply o EINVAL []
    | fan_fd :: dirs => c.mark_dirs o req fan_fd dirs
  else c.send_reply o EINVAL []

/-- One message; the buffers take `REQ_SIZE` bytes and `MAX_IN_FDS` descriptors of it. -/
def handle (k : Numbering FileId) (o : Outcomes) (c : FactoryChild) (payload : Bytes) (files : List FileId) :
    FactoryChild :=
  let payload := payload.take REQ_SIZE
  let (in_fds, fds) := c.fds.install k (files.take MAX_IN_FDS)
  let c := { c with fds }
  -- the parent is gone, and what came goes with the child
  if payload.length = 0 then { c with exited := true }
  else if payload.length < REQ_SIZE then (c.send_reply o EINVAL []).close_fds in_fds
  else (c.serve k o (.of_bytes payload) in_fds).close_fds in_fds

def step (k : Numbering FileId) (c : FactoryChild) (a : Incoming) : FactoryChild :=
  if c.exited then c
  else
    match a with
    | .message payload files o => c.handle k o payload files
    | .failed => { c with exited := true }

/-- After a message the table is as before, and one reply was tried; after an empty one, or none, the
child has exited, and no reply was tried. -/
def AnswersOnce (k : Numbering FileId) (c : FactoryChild) (a : Incoming) : Prop :=
  c.exited = false →
    match a.ends with
    | false => (c.step k a).fds = c.fds ∧ (c.step k a).exited = false ∧
        ∃ answer, (c.step k a).answers = c.answers ++ [answer]
    | true => (c.step k a).exited = true ∧ (c.step k a).answers = c.answers

/-! ## A request is served -/

/-- The outcomes as the system calls of `answer`. -/
def syscalls (k : Numbering FileId) (o : Outcomes) (c : FactoryChild) (in_fds : List Nat) : Syscalls where
  fanotify_init _ := o.fanotify_init.map fun _ => k.unused c.fds.opened
  fanotify_mark _ _ _ dirfd := o.fanotify_mark (in_fds.idxOf dirfd)

variable {k : Numbering FileId} {o : Outcomes} {c : FactoryChild} {req : FactoryRequest}

/-- What the loop of `mark_dirs` adds. -/
theorem foldl_mark_dir (o : Outcomes) (req : FactoryRequest) (fan_fd : Nat) : ∀ (dirs : List (Nat × Nat))
    (c : FactoryChild) (first_error : Nat), dirs.foldl (mark_dir o req fan_fd) (c, first_error) =
      ({ c with
          attempts := c.attempts ++ dirs.map fun d =>
            ⟨c.fds.get fan_fd, req.mark_flags, req.mask, c.fds.get d.1, o.fanotify_mark d.2⟩ },
        if first_error = 0 then ((dirs.map fun d => o.fanotify_mark d.2).filter (· ≠ 0)).head?.getD 0
        else first_error) := by
  intro dirs
  induction dirs with
  | nil =>
      intro c first_error
      by_cases h : first_error = 0
      · simp [h]
      · simp [h]
  | cons d dirs ih =>
      intro c first_error
      rw [List.foldl_cons, mark_dir, ih]
      refine Prod.ext ?_ ?_
      · simp [fanotify_mark]
      · by_cases h : first_error = 0
        · by_cases hd : o.fanotify_mark d.2 = 0
          · simp [h, hd]
          · simp [h, hd]
        · simp [h]

/-- By place or by descriptor: these are the same outcomes. -/
theorem map_place {fan_fd : Nat} {dirs : List Nat} (h : (fan_fd :: dirs).Nodup) (o : Outcomes) :
    ((dirs.zipIdx 1).map fun d => o.fanotify_mark d.2) =
      dirs.map fun dirfd => o.fanotify_mark ((fan_fd :: dirs).idxOf dirfd) := by
  refine List.ext_getElem (by simp) ?_
  intro i hi hi'
  have hbound : i < dirs.length := by simpa using hi'
  have hplace : (fan_fd :: dirs).idxOf dirs[i] = i + 1 := h.idxOf_getElem (i + 1) (Nat.succ_lt_succ hbound)
  rw [List.getElem_map, List.getElem_map, List.getElem_zipIdx, hplace, Nat.add_comm]

theorem mark_dirs_eq (o : Outcomes) (c : FactoryChild) (req : FactoryRequest) (fan_fd : Nat) (dirs : List Nat) :
    c.mark_dirs o req fan_fd dirs =
      { c with
        attempts := c.attempts ++ (dirs.zipIdx 1).map fun d =>
          ⟨c.fds.get fan_fd, req.mark_flags, req.mask, c.fds.get d.1, o.fanotify_mark d.2⟩
        answers := c.answers ++
          [⟨(((dirs.zipIdx 1).map fun d => o.fanotify_mark d.2).filter (· ≠ 0)).head?.getD 0, [],
            o.sendmsg⟩] } := by
  rw [mark_dirs, foldl_mark_dir]
  rfl

/-- A group is closed again, marked or not. -/
theorem create_group_spec (k : Numbering FileId) (o : Outcomes) (c : FactoryChild) (req : FactoryRequest)
    (dirfd : Nat) (fds : List Nat) : ∃ attempts, c.create_group_and_mark k o req dirfd =
      { c with
        attempts
        answers := c.answers ++
          [⟨(Factory.create_group_and_mark (c.syscalls k o (dirfd :: fds)) req dirfd).1,
            (Factory.create_group_and_mark (c.syscalls k o (dirfd :: fds)) req dirfd).2, o.sendmsg⟩] } := by
  have hclosed : ∀ group, (c.fds.add (k.unused c.fds.opened) group).close_all [k.unused c.fds.opened] = c.fds :=
    fun group => FdTable.close_add (FdTable.get_unused k c.fds) group
  have hplace : (dirfd :: fds).idxOf dirfd = 0 := List.idxOf_cons_self
  rw [create_group_and_mark, Factory.create_group_and_mark]
  simp only [syscalls, hplace]
  cases o.fanotify_init with
  | error errno => exact ⟨_, rfl⟩
  | ok group =>
      simp only [Except.map]
      by_cases h : o.fanotify_mark 0 = 0
      · simp only [h, ne_eq, not_true, if_false, close_fds, send_reply, fanotify_mark, hclosed]
        exact ⟨_, rfl⟩
      · simp only [h, ne_eq, not_false_iff, if_true, close_fds, send_reply, fanotify_mark, hclosed]
        exact ⟨_, rfl⟩

/-- **A request is answered once**, as `answer` says, and leaves the table as it is. -/
theorem serve_spec {in_fds : List Nat} (h : in_fds.Nodup) (k : Numbering FileId) (o : Outcomes)
    (c : FactoryChild) (req : FactoryRequest) : ∃ attempts, c.serve k o req in_fds =
      { c with
        attempts
        answers := c.answers ++ [⟨(answer (c.syscalls k o in_fds) req in_fds).1,
          (answer (c.syscalls k o in_fds) req in_fds).2, o.sendmsg⟩] } := by
  unfold serve answer
  cases in_fds with
  | nil =>
      split
      · exact ⟨_, rfl⟩
      · split
        · exact ⟨_, rfl⟩
        · exact ⟨_, rfl⟩
  | cons fd fds =>
      simp only
      split
      · exact create_group_spec k o c req fd fds
      · split
        · rw [mark_dirs_eq, map_place h]
          exact ⟨_, rfl⟩
        · exact ⟨_, rfl⟩

/-! ## Over runs -/

/-- One message: what came is closed, and nothing else. -/
theorem handle_answers (k : Numbering FileId) (o : Outcomes) (c : FactoryChild) {payload : Bytes}
    (files : List FileId) (h : payload ≠ []) :
    (c.handle k o payload files).fds = c.fds ∧ (c.handle k o payload files).exited = c.exited ∧
      ∃ answer, (c.handle k o payload files).answers = c.answers ++ [answer] := by
  have hclosed := FdTable.close_all_install k (files.take MAX_IN_FDS) c.fds
  have hnodup := (FdTable.nodup_install k (files.take MAX_IN_FDS) c.fds).1
  have hsome : ¬ (payload.take REQ_SIZE).length = 0 := by
    rw [List.length_eq_zero_iff, List.take_eq_nil_iff]
    rintro (hzero | hnil)
    · cases hzero
    · exact h hnil
  rw [handle]
  simp only [hsome, if_false]
  split
  · exact ⟨hclosed, rfl, _, rfl⟩
  · obtain ⟨attempts, hserve⟩ := serve_spec hnodup k o
      { c with fds := (c.fds.install k (files.take MAX_IN_FDS)).2 } (.of_bytes (payload.take REQ_SIZE))
    rw [hserve]
    exact ⟨hclosed, rfl, _, rfl⟩

theorem exited_step (k : Numbering FileId) (a : Incoming) (h : c.exited = true) : c.step k a = c := if_pos h

theorem alive_step (k : Numbering FileId) (a : Incoming) (h : c.exited = false) :
    c.step k a = match a with
      | .message payload files o => c.handle k o payload files
      | .failed => { c with exited := true } :=
  if_neg (by rw [h]; exact Bool.false_ne_true)

theorem step_answers_once (k : Numbering FileId) (c : FactoryChild) (a : Incoming) : c.AnswersOnce k a := by
  intro halive
  rw [alive_step k a halive]
  cases a with
  | failed => exact ⟨rfl, rfl⟩
  | message payload files o =>
      cases payload with
      | nil => exact ⟨rfl, rfl⟩
      | cons b bs =>
          have hhandle := handle_answers k o c files (List.cons_ne_nil b bs)
          rw [halive] at hhandle
          exact hhandle

/-- As long as the child has not exited, its table is the first one, and it has tried one reply for each
message. -/
structure Clean (fds : FdTable FileId) (n : Nat) (c : FactoryChild) : Prop where
  fds : c.fds = fds
  answers : c.answers.length = n

theorem clean_exec (k : Numbering FileId) (fds : FdTable FileId) : ∀ (run : List Incoming) (n : Nat)
    (c : FactoryChild), (c.exited = false → c.Clean fds n) →
      (Run.exec (step k) c run).exited = false → (Run.exec (step k) c run).Clean fds (n + run.length) := by
  intro run
  induction run with
  | nil =>
      intro n c h
      exact h
  | cons a run ih =>
      intro n c h hend
      rw [Run.exec_cons] at hend ⊢
      rw [List.length_cons, Nat.add_comm run.length, ← Nat.add_assoc]
      refine ih (n + 1) (c.step k a) ?_ hend
      intro halive
      cases hexited : c.exited with
      | true =>
          rw [exited_step k a hexited, hexited] at halive
          cases halive
      | false =>
          have hclean := h hexited
          have honce := step_answers_once k c a hexited
          cases hends : a.ends with
          | true =>
              rw [hends, halive] at honce
              cases honce.1
          | false =>
              rw [hends] at honce
              obtain ⟨hfds, _, answer, hanswers⟩ := honce
              refine ⟨hfds.trans hclean.fds, ?_⟩
              rw [hanswers, List.length_append, hclean.answers]
              rfl

/-- **The child leaks no descriptor and answers once.**  In every run each message is answered once and
leaves the table as it found it, until one is empty or fails to come, which ends the child; so a child
that has not exited has its first table, and has tried as many replies as messages came. -/
theorem child_answers_once (k : Numbering FileId) (fds : FdTable FileId) (run : List Incoming) :
    Run.Guarded (step k) (AnswersOnce k) (start fds) run ∧
      ((Run.exec (step k) (start fds) run).exited = false →
        (Run.exec (step k) (start fds) run).Clean fds run.length) := by
  constructor
  · exact Run.Guarded.of_forall (step_answers_once k) run (start fds)
  · have hclean := clean_exec k fds run 0 (start fds) fun _ => ⟨rfl, rfl⟩
    rw [Nat.zero_add] at hclean
    exact hclean

end FactoryChild

end Fsmon.Factory
