/-
# `Fsmon.Factory.Marked` — what a mark request has marked

`FanotifyFactory::mark` sends the group's descriptor and those of the directories;
the child marks what arrives of them.  The kernel delivers no more descriptors than
the child has room for, and `count`, which the request carries along, is never read.

    Exchange         what the system answers while one request is made
    tried            the calls of `fanotify_mark` that the request led to
    MarksAll         `Ok` means that all directories were marked, and a status is the
                     first error among the delivered ones, all of which were tried
    Delivered        all descriptors arrive, or the group's does and one of the
                     delivered directories fails
    marks_all_iff    these are the same exchanges
-/
import Fsmon.Factory.Child
import Fsmon.Event

namespace Fsmon.Factory

/-- What the system answers while one request is made. -/
structure Exchange where
  /-- The parent's `sendmsg` takes the request. -/
  sendmsg : Bool
  /-- The child's `recvmsg`: how many descriptors find room, or an error. -/
  room : Option Nat
  /-- The system calls of the child. -/
  outcomes : Outcomes
  /-- The parent's `poll` sees something in time. -/
  poll : Bool
  /-- The parent's `recvmsg`: how many descriptors find room, or an error. -/
  recvmsg : Option Nat

/-- Why `mark` fails. -/
inductive MarkError where
  | too_many (dirs : Nat)
  | request (e : RequestError)
  deriving DecidableEq, Repr

namespace FactoryChild

/-- What the child gets of a request. -/
def Exchange.incoming (x : Exchange) (req : FactoryRequest) (files : List FileId) : Incoming :=
  match x.room with
  | some room => .message req.to_bytes (files.take room) x.outcomes
  | none => .failed

/-- `FanotifyFactory::request`, while no other one is made. -/
def request (k : Numbering FileId) (x : Exchange) (c : FactoryChild) (req : FactoryRequest)
    (files : List FileId) : FactoryChild × Except RequestError (List Nat) :=
  if c.exited || !x.sendmsg then (c, .error .send_failed)
  else
    let c' := c.step k (Exchange.incoming x req files)
    (c',
      match c'.answers.drop c.answers.length with
      | [] => .error .exited
      | a :: _ =>
          if a.sent && x.poll then
            match x.recvmsg with
            | none => .error .receive_failed
            | some got => (Reply.mk 0 a.status a.fds).result got
          else .error .no_answer)

/-- The request of `mark`. -/
def mark_request (dirs : List FileId) (mark_flags : BitVec 32) (mask : Mask) : FactoryRequest :=
  ⟨KIND_MARK, 0, mark_flags.toNat, dirs.length, (mask &&& ~~~FAN_FS_ERROR).toNat⟩

/-- `FanotifyFactory::mark`. -/
def mark (k : Numbering FileId) (x : Exchange) (c : FactoryChild) (fan : FileId) (dirs : List FileId)
    (mark_flags : BitVec 32) (mask : Mask) : FactoryChild × Except MarkError Unit :=
  if dirs.length + 1 > MAX_FDS then (c, .error (.too_many dirs.length))
  else
    let r := c.request k x (mark_request dirs mark_flags mask) (fan :: dirs)
    (r.1,
      match r.2 with
      | .error e => .error (.request e)
      | .ok _ => .ok ())

/-- The calls of `fanotify_mark` since. -/
def tried (c c' : FactoryChild) : List Attempt := c'.attempts.drop c.attempts.length

/-- A call for a directory. -/
def call (fan : FileId) (mark_flags : BitVec 32) (mask : Mask) (dir : FileId) (errno : Nat) : Attempt :=
  ⟨some fan, mark_flags.toNat, (mask &&& ~~~FAN_FS_ERROR).toNat, some dir, errno⟩

section
variable (k : Numbering FileId) (x : Exchange) (c : FactoryChild) (fan : FileId) (dirs : List FileId)
  (mark_flags : BitVec 32) (mask : Mask)

/-- The directories whose descriptors arrive. -/
def delivered : List FileId := ((fan :: dirs).take (x.room.getD 0)).tail

/-- What a result of `mark` says. -/
structure MarksAll : Prop where
  /-- With `Ok` the call for each directory has succeeded. -/
  ok : (c.mark k x fan dirs mark_flags mask).2 = .ok () → ∀ (i : Nat) dir, dirs[i]? = some dir →
    (c.tried (c.mark k x fan dirs mark_flags mask).1)[i]? = some (call fan mark_flags mask dir 0)
  /-- With the child's status each delivered directory has been tried, and it is the first error. -/
  failed : ∀ status, (c.mark k x fan dirs mark_flags mask).2 = .error (.request (.failed status)) →
    (c.tried (c.mark k x fan dirs mark_flags mask).1).map Attempt.dir =
        (delivered x fan dirs).map some ∧
      ((c.tried (c.mark k x fan dirs mark_flags mask).1).find? (·.errno ≠ 0)).map Attempt.errno = some status

/-- The request reaches the child, and its reply the parent. -/
structure Through : Prop where
  few : dirs.length + 1 ≤ MAX_FDS
  alive : c.exited = false
  sendmsg : x.sendmsg = true
  room : x.room.isSome = true
  reply : x.outcomes.sendmsg = true
  poll : x.poll = true
  recvmsg : x.recvmsg.isSome = true

/-- If the request gets through, all its descriptors do, or the group's does and a directory that is
delivered cannot be marked. -/
def Delivered : Prop :=
  Through x c dirs → ∀ room, x.room = some room → 1 ≤ room ∧
    (dirs.length + 1 ≤ room ∨ ∃ place, 1 ≤ place ∧ place < room ∧ x.outcomes.fanotify_mark place ≠ 0)

end

/-! ## The request is read as it was sent -/

variable {k : Numbering FileId} {x : Exchange} {c : FactoryChild} {fan : FileId} {dirs : List FileId}
  {mark_flags : BitVec 32} {mask : Mask}

theorem fits_mark_request (h : dirs.length + 1 ≤ MAX_FDS) : (mark_request dirs mark_flags mask).Fits where
  kind := by
    show KIND_MARK < 2 ^ 32
    decide
  flags := by
    show 0 < 2 ^ 32
    decide
  mark_flags := mark_flags.isLt
  count := by
    show dirs.length < 2 ^ 32
    rw [MAX_FDS] at h
    omega
  mask := BitVec.isLt _

/-- The calls for some directories, whose descriptors stand at the places from 1 on. -/
def calls (o : Outcomes) (fan : FileId) (mark_flags : BitVec 32) (mask : Mask) (dirs : List FileId) :
    List Attempt :=
  (dirs.zipIdx 1).map fun d => call fan mark_flags mask d.1 (o.fanotify_mark d.2)

/-- The first error. -/
def first_error (calls : List Attempt) : Nat := ((calls.map Attempt.errno).filter (· ≠ 0)).head?.getD 0

/-- The calls that a request leads to if so many of its descriptors arrive. -/
def calls_in (o : Outcomes) (fan : FileId) (mark_flags : BitVec 32) (mask : Mask) (dirs : List FileId)
    (room : Nat) : List Attempt :=
  if room = 0 then [] else calls o fan mark_flags mask (dirs.take (room - 1))

/-- The status of its reply. -/
def status_in (o : Outcomes) (fan : FileId) (mark_flags : BitVec 32) (mask : Mask) (dirs : List FileId)
    (room : Nat) : Nat :=
  if room = 0 then EINVAL else first_error (calls o fan mark_flags mask (dirs.take (room - 1)))

/-- The calls by descriptor are the calls by file. -/
theorem calls_eq {get : Nat → Option FileId} {dirfds : List Nat} (h : dirfds.map get = dirs.map some)
    (o : Outcomes) (fan : FileId) (mark_flags : BitVec 32) (mask : Mask) :
    ((dirfds.zipIdx 1).map fun d =>
        (⟨some fan, mark_flags.toNat, (mask &&& ~~~FAN_FS_ERROR).toNat, get d.1,
          o.fanotify_mark d.2⟩ : Attempt)) =
      calls o fan mark_flags mask dirs := by
  have hzip := congrArg (fun l => l.zipIdx 1) h
  simp only [List.zipIdx_map] at hzip
  have hmap := congrArg (List.map fun d : Option FileId × Nat =>
    (⟨some fan, mark_flags.toNat, (mask &&& ~~~FAN_FS_ERROR).toNat, d.1, o.fanotify_mark d.2⟩ : Attempt)) hzip
  rw [List.map_map, List.map_map] at hmap
  exact hmap

/-- The request is served: what arrives of the directories is marked. -/
theorem serve_mark (k : Numbering FileId) (o : Outcomes) (fan : FileId) (mark_flags : BitVec 32) (mask : Mask)
    {in_fds : List Nat} {room : Nat} (h : in_fds.map c.fds.get = ((fan :: dirs).take room).map some) :
    (c.serve k o (mark_request dirs mark_flags mask) in_fds).attempts =
        c.attempts ++ calls_in o fan mark_flags mask dirs room ∧
      (c.serve k o (mark_request dirs mark_flags mask) in_fds).answers =
        c.answers ++ [⟨status_in o fan mark_flags mask dirs room, [], o.sendmsg⟩] := by
  cases room with
  | zero =>
      have hnil : in_fds = [] := List.map_eq_nil_iff.1 h
      rw [hnil]
      exact ⟨(List.append_nil _).symm, rfl⟩
  | succ room =>
      cases in_fds with
      | nil => cases h
      | cons fan_fd dirfds =>
          obtain ⟨hfan, hdirs⟩ := List.cons.inj h
          have hcalls := calls_eq hdirs o fan mark_flags mask
          have herrors := congrArg (List.map Attempt.errno) hcalls
          rw [List.map_map] at herrors
          have hserve : c.serve k o (mark_request dirs mark_flags mask) (fan_fd :: dirfds) =
              c.mark_dirs o (mark_request dirs mark_flags mask) fan_fd dirfds := rfl
          rw [hserve, mark_dirs_eq, hfan]
          refine ⟨congrArg _ hcalls, ?_⟩
          rw [status_in, if_neg (Nat.succ_ne_zero room), first_error, Nat.add_sub_cancel, ← herrors]
          rfl

/-- The child's answer to the request. -/
theorem handle_mark (k : Numbering FileId) (o : Outcomes) (c : FactoryChild) (fan : FileId)
    (mark_flags : BitVec 32) (mask : Mask) (h : dirs.length + 1 ≤ MAX_FDS) (room : Nat) :
    (c.handle k o (mark_request dirs mark_flags mask).to_bytes ((fan :: dirs).take room)).attempts =
        c.attempts ++ calls_in o fan mark_flags mask dirs room ∧
      (c.handle k o (mark_request dirs mark_flags mask).to_bytes ((fan :: dirs).take room)).answers =
        c.answers ++ [⟨status_in o fan mark_flags mask dirs room, [], o.sendmsg⟩] := by
  have hpayload : (mark_request dirs mark_flags mask).to_bytes.take REQ_SIZE =
      (mark_request dirs mark_flags mask).to_bytes :=
    List.take_of_length_le (Nat.le_of_eq (FactoryRequest.length_to_bytes _))
  have hfiles : ((fan :: dirs).take room).take MAX_IN_FDS = (fan :: dirs).take room := by
    rw [List.take_of_length_le]
    rw [List.length_take, List.length_cons]
    exact Nat.le_trans (Nat.min_le_right ..) h
  have hsome : ¬ (mark_request dirs mark_flags mask).to_bytes.length = 0 := by
    rw [FactoryRequest.length_to_bytes]
    decide
  have hwhole : ¬ (mark_request dirs mark_flags mask).to_bytes.length < REQ_SIZE := by
    rw [FactoryRequest.length_to_bytes]
    exact Nat.lt_irrefl _
  rw [handle]
  simp only [hpayload, hfiles, hsome, hwhole, if_false, FactoryRequest.of_bytes_to_bytes (fits_mark_request h)]
  exact @serve_mark { c with fds := (c.fds.install k ((fan :: dirs).take room)).2 } dirs k o fan mark_flags mask
    _ _
    (FdTable.map_get_install k ((fan :: dirs).take room) c.fds)

/-! ## What `mark` returns -/

/-- A request that gets through. -/
theorem mark_through (h : Through x c dirs) {room : Nat} (hroom : x.room = some room) :
    c.tried (c.mark k x fan dirs mark_flags mask).1 = calls_in x.outcomes fan mark_flags mask dirs room ∧
      (c.mark k x fan dirs mark_flags mask).2 =
        if status_in x.outcomes fan mark_flags mask dirs room ≠ 0 then
          .error (.request (.failed (status_in x.outcomes fan mark_flags mask dirs room)))
        else .ok () := by
  obtain ⟨hattempts, hanswers⟩ := handle_mark k x.outcomes c fan mark_flags mask h.few room
  obtain ⟨got, hgot⟩ := Option.isSome_iff_exists.1 h.recvmsg
  have hfew : ¬ dirs.length + 1 > MAX_FDS := Nat.not_lt.2 h.few
  have hstep : c.step k (Exchange.incoming x (mark_request dirs mark_flags mask) (fan :: dirs)) =
      c.handle k x.outcomes (mark_request dirs mark_flags mask).to_bytes ((fan :: dirs).take room) := by
    rw [alive_step k _ h.alive, Exchange.incoming, hroom]
  have hsent : (c.exited || !x.sendmsg) = false := by
    rw [h.alive, h.sendmsg]
    rfl
  rw [mark, if_neg hfew, request, hsent]
  simp only [Bool.false_eq_true, if_false, hstep, tried, hattempts, hanswers, List.drop_left]
  refine ⟨trivial, ?_⟩
  simp only [h.reply, h.poll, hgot, Bool.and_true, if_true, Reply.result]
  by_cases hstatus : status_in x.outcomes fan mark_flags mask dirs room = 0
  · simp only [hstatus, ne_eq, not_true, if_false]
  · simp only [hstatus, ne_eq, not_false_iff, if_true]

/-- A request that does not get through returns another error. -/
theorem mark_not_through (h : ¬ Through x c dirs) :
    ∃ e, (c.mark k x fan dirs mark_flags mask).2 = .error e ∧ ∀ status, e ≠ .request (.failed status) := by
  rw [mark]
  split
  · exact ⟨_, rfl, fun _ he => by cases he⟩
  · next hmany =>
    have hfew := Nat.not_lt.1 hmany
    rw [request]
    split
    · exact ⟨_, rfl, fun _ he => by cases he⟩
    · next hclosed =>
      obtain ⟨halive, hsend⟩ : c.exited = false ∧ x.sendmsg = true := by simpa using hclosed
      simp only [alive_step k _ halive, Exchange.incoming]
      cases hroom : x.room with
      | none =>
          simp only [List.drop_length]
          exact ⟨_, rfl, fun _ he => by cases he⟩
      | some room =>
          obtain ⟨_, hanswers⟩ := handle_mark k x.outcomes c fan mark_flags mask hfew room
          simp only [hanswers, List.drop_left]
          cases hreply : x.outcomes.sendmsg && x.poll with
          | false => exact ⟨_, rfl, fun _ he => by cases he⟩
          | true =>
              obtain ⟨hsent, hpoll⟩ := Bool.and_eq_true_iff.1 hreply
              cases hrecv : x.recvmsg with
              | none => exact ⟨_, rfl, fun _ he => by cases he⟩
              | some got =>
                  refine absurd ?_ h
                  exact ⟨hfew, halive, hsend, by rw [hroom]; rfl, hsent, hpoll, by rw [hrecv]; rfl⟩

/-! ## All directories, or an error -/

theorem getElem?_calls (o : Outcomes) (dirs : List FileId) (i : Nat) :
    (calls o fan mark_flags mask dirs)[i]? =
      dirs[i]?.map fun dir => call fan mark_flags mask dir (o.fanotify_mark (1 + i)) := by
  rw [calls, List.getElem?_map, List.getElem?_zipIdx, Option.map_map]
  rfl

theorem map_dir_calls (o : Outcomes) (dirs : List FileId) :
    (calls o fan mark_flags mask dirs).map Attempt.dir = dirs.map some := by
  have hfst := congrArg (List.map some) (List.zipIdx_map_fst 1 dirs)
  rw [List.map_map] at hfst
  rw [calls, List.map_map]
  exact hfst

/-- The status is the first error, or zero. -/
theorem first_error_eq (cs : List Attempt) :
    first_error cs = ((cs.find? (·.errno ≠ 0)).map Attempt.errno).getD 0 := by
  rw [first_error, List.head?_filter, List.find?_map]
  rfl

theorem first_error_eq_zero {cs : List Attempt} : first_error cs = 0 ↔ ∀ a ∈ cs, a.errno = 0 := by
  rw [first_error_eq]
  cases hfind : cs.find? (·.errno ≠ 0) with
  | none =>
      refine iff_of_true rfl ?_
      intro a ha
      simpa using List.find?_eq_none.1 hfind a ha
  | some a =>
      have herror : a.errno ≠ 0 := by simpa using List.find?_some hfind
      exact iff_of_false herror fun hall => herror (hall a (List.mem_of_find?_eq_some hfind))

theorem find_first_error {cs : List Attempt} (h : first_error cs ≠ 0) :
    (cs.find? (·.errno ≠ 0)).map Attempt.errno = some (first_error cs) := by
  rw [first_error_eq] at h ⊢
  cases hfind : (cs.find? (·.errno ≠ 0)).map Attempt.errno with
  | none =>
      rw [hfind] at h
      exact absurd rfl h
  | some errno => rfl

/-- The calls succeed exactly when those at the places do. -/
theorem calls_succeed_iff (o : Outcomes) (dirs : List FileId) :
    first_error (calls o fan mark_flags mask dirs) = 0 ↔ ∀ i < dirs.length, o.fanotify_mark (1 + i) = 0 := by
  rw [first_error_eq_zero]
  constructor
  · intro hall i hi
    have hat := @getElem?_calls fan mark_flags mask o dirs i
    rw [List.getElem?_eq_getElem hi] at hat
    exact hall _ (List.mem_of_getElem? hat)
  · intro hall a ha
    obtain ⟨i, hi, rfl⟩ := List.getElem_of_mem ha
    have hlen : i < dirs.length := by simpa [calls] using hi
    have hat := @getElem?_calls fan mark_flags mask o dirs i
    rw [List.getElem?_eq_getElem hi, List.getElem?_eq_getElem hlen] at hat
    rw [Option.some.inj hat]
    exact hall i hlen

/-- **All directories are marked, or there is an error**, exactly if all descriptors arrive, or the
group's does and a directory that arrives cannot be marked. -/
theorem marks_all_iff (k : Numbering FileId) (x : Exchange) (c : FactoryChild) (fan : FileId)
    (dirs : List FileId) (mark_flags : BitVec 32) (mask : Mask) :
    MarksAll k x c fan dirs mark_flags mask ↔ Delivered x c dirs := by
  by_cases h : Through x c dirs
  · obtain ⟨room, hroom⟩ := Option.isSome_iff_exists.1 h.room
    obtain ⟨htried, hresult⟩ := @mark_through k x c fan dirs mark_flags mask h room hroom
    cases room with
    | zero =>
        refine iff_of_false ?_ fun hd => Nat.not_succ_le_zero 0 (hd h 0 hroom).1
        intro hmarks
        have hnone := (hmarks.failed EINVAL hresult).2
        rw [htried] at hnone
        cases hnone
    | succ room =>
        have hcalls : calls_in x.outcomes fan mark_flags mask dirs (room + 1) =
            calls x.outcomes fan mark_flags mask (dirs.take room) := rfl
        have hstatus : status_in x.outcomes fan mark_flags mask dirs (room + 1) =
            first_error (calls x.outcomes fan mark_flags mask (dirs.take room)) := rfl
        rw [hcalls] at htried
        rw [hstatus] at hresult
        constructor
        · intro hmarks _ room' hroom'
          cases hroom.symm.trans hroom'
          refine ⟨Nat.succ_pos room, ?_⟩
          by_contra hshort
          rw [not_or, Nat.not_le] at hshort
          obtain ⟨hless, hnone⟩ := hshort
          -- what arrives is marked, and the next directory is not
          have hzero : first_error (calls x.outcomes fan mark_flags mask (dirs.take room)) = 0 := by
            rw [calls_succeed_iff]
            intro i hi
            by_contra hfails
            have hlen := List.length_take_le room dirs
            exact hnone ⟨1 + i, by omega, by omega, hfails⟩
          rw [hzero] at hresult
          have hlt : room < dirs.length := by omega
          have hmarked := hmarks.ok hresult room dirs[room] (List.getElem?_eq_getElem hlt)
          rw [htried, getElem?_calls, List.getElem?_eq_none (List.length_take_le room dirs)] at hmarked
          cases hmarked
        · intro hd
          obtain ⟨_, hfull⟩ := hd h (room + 1) hroom
          constructor
          · intro hok i dir hdir
            have hzero : first_error (calls x.outcomes fan mark_flags mask (dirs.take room)) = 0 := by
              by_contra hne
              rw [hresult, if_pos hne] at hok
              cases hok
            rw [calls_succeed_iff] at hzero
            have hall : dirs.length ≤ room := by
              rcases hfull with hle | ⟨place, hone, hlt, hfails⟩
              · exact Nat.le_of_succ_le_succ hle
              · by_contra hmore
                refine hfails ?_
                have hplace := hzero (place - 1) (by rw [List.length_take]; omega)
                rwa [Nat.add_sub_cancel' hone] at hplace
            have hi : i < dirs.length := (List.getElem?_eq_some_iff.1 hdir).1
            rw [htried, List.take_of_length_le hall, getElem?_calls, hdir]
            rw [List.take_of_length_le hall] at hzero
            rw [hzero i hi]
            rfl
          · intro status hfailed
            have hne : first_error (calls x.outcomes fan mark_flags mask (dirs.take room)) ≠ 0 := by
              intro hzero
              rw [hresult, if_neg (not_not.2 hzero)] at hfailed
              cases hfailed
            rw [hresult, if_pos hne] at hfailed
            cases hfailed
            rw [htried, map_dir_calls, delivered, hroom]
            exact ⟨rfl, find_first_error hne⟩
  · obtain ⟨e, hresult, he⟩ := @mark_not_through k x c fan dirs mark_flags mask h
    refine iff_of_true ⟨?_, ?_⟩ fun hthrough => absurd hthrough h
    · intro hok
      rw [hresult] at hok
      cases hok
    · intro status hfailed
      rw [hresult] at hfailed
      exact absurd (Except.error.inj hfailed) (he status)

/-- Two directories are sent, and there is room for the group and one of them. -/
def short : Exchange := ⟨true, some 2, ⟨.error EINVAL, fun _ => 0, true⟩, true, some 0⟩

/-- `Ok`, and the second directory was never tried. -/
theorem marks_not_all : ¬ MarksAll (lowest FileId) short (start ⟨∅, 0⟩) 10 [11, 12] 1#32 0x100#64 := by
  intro h
  have hsecond := h.ok rfl 1 12 rfl
  revert hsecond
  decide

end FactoryChild

end Fsmon.Factory
