/-
# `Fsmon.Factory.Cmsg` — descriptors in control messages

`send_msg` and `recv_msg`, byte by byte: a header of 16 bytes, the descriptors
behind it, the space rounded up to 16.  Between the two the kernel puts its own
numbers in place of the sender's, and counts the space in steps of 8 or of 16.

    cmsg_align_eq        the mask rounds up to a multiple of 16
    Received.read        a read that stays within `msg_controllen`
    walk                 the walk over the headers, with fuel
    recv_msg_send_msg    what is sent is received, in one round, and all reads are inside

Descriptors are 32-bit numbers here, as the wire has them.
-/
import Fsmon.Factory.Child
import Fsmon.Lib.Checked

namespace Fsmon.Factory

abbrev RawFd := BitVec 32

/-! ## The helpers -/

/-- `size_of::<libc::cmsghdr>()`, on a 64-bit target. -/
def CMSGHDR_SIZE : Nat := 16

/-- `(len + h - 1) & !(h - 1)`. -/
def cmsg_align (len : Nat) : Nat :=
  (len + CMSGHDR_SIZE - 1) &&& (Checked.USIZE_MAX - (CMSGHDR_SIZE - 1))

def cmsg_data_len (nfds : Nat) : Nat := nfds * 4

def control_space (nfds : Nat) : Nat := cmsg_align CMSGHDR_SIZE + cmsg_align (nfds * 4)

/-- The mask clears the last four bits. -/
theorem and_mask {x : Nat} (hx : x < 2 ^ 64) :
    x &&& (Checked.USIZE_MAX - (CMSGHDR_SIZE - 1)) = x / 16 * 16 := by
  have hmask : Checked.USIZE_MAX - (CMSGHDR_SIZE - 1) = (2 ^ 60 - 1) <<< 4 := rfl
  have hround : x / 16 * 16 = (x >>> 4) <<< 4 := by
    rw [Nat.shiftLeft_eq, Nat.shiftRight_eq_div_pow]
  rw [hmask, hround]
  refine Nat.eq_of_testBit_eq fun i => ?_
  rw [Nat.testBit_and, Nat.testBit_shiftLeft, Nat.testBit_shiftLeft, Nat.testBit_shiftRight,
    Nat.testBit_two_pow_sub_one]
  by_cases hlow : 4 ≤ i
  · rw [Nat.add_sub_cancel' hlow]
    by_cases hbit : i < 64
    · simp [hlow, show i - 4 < 60 by omega]
    · have hzero : x.testBit i = false :=
        Nat.testBit_lt_two_pow (Nat.lt_of_lt_of_le hx (Nat.pow_le_pow_right (by decide) (by omega)))
      simp [hzero]
  · simp [hlow]

theorem cmsg_align_eq {len : Nat} (h : len < 2 ^ 63) : cmsg_align len = (len + 15) / 16 * 16 :=
  and_mask (by rw [CMSGHDR_SIZE]; omega)

theorem hdr_align_eq : cmsg_align CMSGHDR_SIZE = 16 := rfl

/-- Sixteen bytes and the descriptors', for a message of at most 64. -/
theorem control_space_eq {n : Nat} (h : n ≤ MAX_FDS) : control_space n = 16 + (n * 4 + 15) / 16 * 16 := by
  rw [MAX_FDS] at h
  rw [control_space, hdr_align_eq, cmsg_align_eq (by omega)]

/-! ## Bytes -/

def SOL_SOCKET : Nat := 1
def SCM_RIGHTS : Nat := 1

structure Cmsghdr where
  cmsg_len : Nat
  cmsg_level : Nat
  cmsg_type : Nat
  deriving DecidableEq, Repr

def Cmsghdr.to_bytes (h : Cmsghdr) : Bytes :=
  to_le 8 h.cmsg_len ++ (to_le 4 h.cmsg_level ++ to_le 4 h.cmsg_type)

def Cmsghdr.of_bytes (b : Bytes) : Cmsghdr where
  cmsg_len := of_le (b.take 8)
  cmsg_level := of_le ((b.drop 8).take 4)
  cmsg_type := of_le ((b.drop 12).take 4)

def fd_bytes (fds : List RawFd) : Bytes := fds.flatMap fun fd => to_le 4 fd.toNat

@[simp] theorem fd_bytes_nil : fd_bytes [] = [] := rfl

@[simp] theorem fd_bytes_cons (fd : RawFd) (fds : List RawFd) :
    fd_bytes (fd :: fds) = to_le 4 fd.toNat ++ fd_bytes fds := rfl

@[simp] theorem fd_bytes_append (fds gds : List RawFd) : fd_bytes (fds ++ gds) = fd_bytes fds ++ fd_bytes gds :=
  List.flatMap_append

@[simp] theorem length_fd_bytes : ∀ fds : List RawFd, (fd_bytes fds).length = fds.length * 4 := by
  intro fds
  induction fds with
  | nil => rfl
  | cons fd fds ih =>
      rw [fd_bytes_cons, List.length_append, ih, length_to_le, List.length_cons]
      omega

@[simp] theorem Cmsghdr.length_to_bytes (h : Cmsghdr) : h.to_bytes.length = CMSGHDR_SIZE := by
  simp [to_bytes, CMSGHDR_SIZE]

/-- A header is read as it was written. -/
theorem Cmsghdr.of_bytes_to_bytes {h : Cmsghdr} (hlen : h.cmsg_len < 256 ^ 8) (hlevel : h.cmsg_level < 256 ^ 4)
    (htype : h.cmsg_type < 256 ^ 4) : of_bytes h.to_bytes = h := by
  obtain ⟨len, level, type⟩ := h
  rw [of_bytes, to_bytes, take_to_le, drop_to_le 8 _ 0, drop_to_le 8 _ 4, drop_to_le 4 _ 0,
    List.drop_zero, List.drop_zero, take_to_le,
    List.take_of_length_le (Nat.le_of_eq (length_to_le 4 _)), of_le_to_le, of_le_to_le, of_le_to_le,
    Nat.mod_eq_of_lt hlen, Nat.mod_eq_of_lt hlevel, Nat.mod_eq_of_lt htype]

/-- A descriptor is read as it was written. -/
theorem ofNat_of_le_to_le (fd : RawFd) : BitVec.ofNat 32 (of_le (to_le 4 fd.toNat)) = fd := by
  have hfd : fd.toNat < 256 ^ 4 := fd.isLt
  rw [of_le_to_le, Nat.mod_eq_of_lt hfd, BitVec.ofNat_toNat, BitVec.setWidth_eq]

/-! ## Sending -/

/-- A message as `sendmsg` gets it; `control` has `msg_controllen` bytes. -/
structure Message where
  payload : Bytes
  control : Bytes
  deriving DecidableEq, Repr

/-- Send `payload` plus `fds`; `none` if the copy leaves the control buffer. -/
def send_msg (payload : Bytes) (fds : List RawFd) : Option Message :=
  if fds = [] then some ⟨payload, []⟩
  else
    let data_len := cmsg_data_len fds.length
    let header : Cmsghdr := ⟨cmsg_align CMSGHDR_SIZE + data_len, SOL_SOCKET, SCM_RIGHTS⟩
    let cmsg := header.to_bytes ++ fd_bytes fds
    if control_space MAX_FDS < CMSGHDR_SIZE + data_len then none
    else
      let control := cmsg ++ List.replicate (control_space MAX_FDS - cmsg.length) 0
      some ⟨payload, control.take (control_space fds.length)⟩

/-! ## The kernel -/

/-- What `recvmsg` leaves behind. -/
structure Received where
  payload : Bytes
  /-- The control buffer. -/
  control : Bytes
  msg_controllen : Nat

/-- The message with the receiver's numbers `got` in place of the sender's; the space behind the
header is counted in steps of `pad`, and `rest` is what the buffer holds behind it. -/
def deliver (sent : Message) (got : List RawFd) (pad : Nat) (rest : Bytes) : Received :=
  if sent.control = [] then ⟨sent.payload, rest, 0⟩
  else
    ⟨sent.payload, sent.control.take CMSGHDR_SIZE ++ fd_bytes got ++ rest,
      CMSGHDR_SIZE + (got.length * 4 + (pad - 1)) / pad * pad⟩

/-! ## Receiving -/

namespace Received
variable (r : Received) (control_start : Nat)

/-- The `n` bytes at `addr`; `none` where some of them are not within `msg_controllen`. -/
def read (addr n : Nat) : Option Bytes :=
  if control_start ≤ addr then
    Checked.slice (r.control.take r.msg_controllen) (addr - control_start) (addr - control_start + n)
  else none

variable (slots : Nat)

/-- The loop over the descriptors of one header: `left` of them from the `i`-th on, behind those in
`fds`.  At most `slots` are taken. -/
def copy_fds (data : Nat) : Nat → Nat → List RawFd → Option (List RawFd)
  | _, 0, fds => some fds
  | i, left + 1, fds =>
      if slots ≤ fds.length then some fds
      else
        match r.read control_start (data + i * 4) 4 with
        | none => none
        | some b => copy_fds data (i + 1) left (fds ++ [BitVec.ofNat 32 (of_le b)])

/-- The descriptors of one header. -/
def take_fds (cmsg_addr : Nat) (h : Cmsghdr) (fds : List RawFd) : Option (List RawFd) :=
  let hdr_align := cmsg_align CMSGHDR_SIZE
  if h.cmsg_level = SOL_SOCKET ∧ h.cmsg_type = SCM_RIGHTS ∧ hdr_align ≤ h.cmsg_len then
    -- `CMSG_DATA`
    copy_fds r control_start slots (cmsg_addr + hdr_align) 0 ((h.cmsg_len - hdr_align) / 4) fds
  else some fds

end Received

/-- How the walk ends. -/
inductive Walk where
  | done (fds : List RawFd)
  /-- A read that is not within `msg_controllen`. -/
  | beyond
  | unfinished
  deriving DecidableEq, Repr

namespace Received
variable (r : Received) (control_start slots : Nat)

/-- The walk over the headers. -/
def walk : Nat → Nat → List RawFd → Walk
  | 0, _, _ => .unfinished
  | fuel + 1, cmsg_addr, fds =>
      let hdr_align := cmsg_align CMSGHDR_SIZE
      let control_end := control_start + r.msg_controllen
      if cmsg_addr < control_start ∨ control_end < cmsg_addr + hdr_align then .done fds
      else
        match r.read control_start cmsg_addr CMSGHDR_SIZE with
        | none => .beyond
        | some b =>
            match r.take_fds control_start slots cmsg_addr (.of_bytes b) fds with
            | none => .beyond
            | some fds =>
                let next := cmsg_addr + cmsg_align (Cmsghdr.of_bytes b).cmsg_len
                if control_end < next + hdr_align then .done fds else walk fuel next fds

/-- Receive one message into a payload buffer of `payload_len` bytes and the slots for descriptors.
`CMSG_FIRSTHDR` is null without room for a header. -/
def recv_msg (payload_len fuel : Nat) : Nat × Walk :=
  (min r.payload.length payload_len,
    if r.msg_controllen < CMSGHDR_SIZE then .done [] else r.walk control_start slots fuel control_start [])

/-! ## A message with descriptors -/

variable {r control_start slots}

/-- A read of a part of the control bytes. -/
theorem read_middle {pre mid post : Bytes} (hview : r.control.take r.msg_controllen = pre ++ mid ++ post)
    {addr n : Nat} (haddr : addr = control_start + pre.length) (hn : n = mid.length) :
    r.read control_start addr n = some mid := by
  subst haddr hn
  rw [read, if_pos (Nat.le_add_right ..), hview, Nat.add_sub_cancel_left]
  exact Checked.slice_middle pre mid post rfl rfl

/-- The loop takes them all, in their order. -/
theorem copy_fds_eq {pre post : Bytes} : ∀ (todo taken : List RawFd),
    r.control.take r.msg_controllen = pre ++ fd_bytes (taken ++ todo) ++ post →
      taken.length + todo.length ≤ slots →
        r.copy_fds control_start slots (control_start + pre.length) taken.length todo.length taken =
          some (taken ++ todo) := by
  intro todo
  induction todo with
  | nil =>
      intro taken _ _
      rw [List.append_nil]
      rfl
  | cons fd todo ih =>
      intro taken hview hroom
      rw [List.length_cons] at hroom ⊢
      have hat : r.control.take r.msg_controllen =
          (pre ++ fd_bytes taken) ++ to_le 4 fd.toNat ++ (fd_bytes todo ++ post) := by
        rw [hview]
        simp
      have hread : r.read control_start (control_start + pre.length + taken.length * 4) 4 =
          some (to_le 4 fd.toNat) := by
        refine read_middle hat ?_ (length_to_le 4 _).symm
        rw [List.length_append, length_fd_bytes, Nat.add_assoc]
      have hnext : r.control.take r.msg_controllen = pre ++ fd_bytes (taken ++ [fd] ++ todo) ++ post := by
        rw [hview, List.append_assoc taken, List.singleton_append]
      rw [copy_fds, if_neg (by omega), hread]
      have hrest := ih (taken ++ [fd]) hnext (by rw [List.length_append, List.length_singleton]; omega)
      rw [List.length_append, List.length_singleton, List.append_assoc, List.singleton_append] at hrest
      simp only [ofNat_of_le_to_le]
      exact hrest

/-- One header and its descriptors: the walk ends behind them, whether the space is counted in steps
of 8 or of 16. -/
theorem walk_one {got : List RawFd} {post : Bytes} {fuel : Nat}
    (hview : r.control.take r.msg_controllen =
      Cmsghdr.to_bytes ⟨CMSGHDR_SIZE + got.length * 4, SOL_SOCKET, SCM_RIGHTS⟩ ++ fd_bytes got ++ post)
    (hlow : CMSGHDR_SIZE ≤ r.msg_controllen)
    (hhigh : r.msg_controllen ≤ CMSGHDR_SIZE + (got.length * 4 + 15) / 16 * 16)
    (hslots : got.length ≤ slots) (hgot : got.length ≤ MAX_FDS) :
    r.walk control_start slots (fuel + 1) control_start [] = .done got := by
  rw [MAX_FDS] at hgot
  rw [CMSGHDR_SIZE] at hlow hhigh
  have hheader : Cmsghdr.of_bytes
      (Cmsghdr.to_bytes ⟨CMSGHDR_SIZE + got.length * 4, SOL_SOCKET, SCM_RIGHTS⟩) =
        ⟨CMSGHDR_SIZE + got.length * 4, SOL_SOCKET, SCM_RIGHTS⟩ := by
    have hlen : CMSGHDR_SIZE + got.length * 4 < 256 ^ 8 := by
      rw [CMSGHDR_SIZE]
      omega
    exact Cmsghdr.of_bytes_to_bytes hlen (show SOL_SOCKET < 256 ^ 4 by decide)
      (show SCM_RIGHTS < 256 ^ 4 by decide)
  have hread : r.read control_start control_start CMSGHDR_SIZE =
      some (Cmsghdr.to_bytes ⟨CMSGHDR_SIZE + got.length * 4, SOL_SOCKET, SCM_RIGHTS⟩) := by
    refine @read_middle r control_start [] _ (fd_bytes got ++ post) ?_ _ _ rfl (Cmsghdr.length_to_bytes _).symm
    rw [hview, List.nil_append, List.append_assoc]
  have htaken : r.take_fds control_start slots control_start
      ⟨CMSGHDR_SIZE + got.length * 4, SOL_SOCKET, SCM_RIGHTS⟩ [] = some got := by
    have hcount : (CMSGHDR_SIZE + got.length * 4 - 16) / 4 = got.length := by
      rw [CMSGHDR_SIZE]
      omega
    have hcopied := @copy_fds_eq r control_start slots _ post got [] hview
      (by rw [List.length_nil, Nat.zero_add]; exact hslots)
    rw [Cmsghdr.length_to_bytes] at hcopied
    rw [take_fds]
    simp only [hdr_align_eq]
    rw [if_pos ⟨trivial, trivial, Nat.le_add_right ..⟩, hcount]
    exact hcopied
  have hnext : cmsg_align (CMSGHDR_SIZE + got.length * 4) = 16 + (got.length * 4 + 15) / 16 * 16 := by
    rw [cmsg_align_eq (by rw [CMSGHDR_SIZE]; omega), CMSGHDR_SIZE]
    omega
  have hinside : ¬ (control_start < control_start ∨
      control_start + r.msg_controllen < control_start + cmsg_align CMSGHDR_SIZE) := by
    rw [hdr_align_eq]
    omega
  have hlast : control_start + r.msg_controllen <
      control_start + (16 + (got.length * 4 + 15) / 16 * 16) + cmsg_align CMSGHDR_SIZE := by
    rw [hdr_align_eq]
    omega
  rw [walk]
  simp only [if_neg hinside, hread, hheader, htaken, hnext, if_pos hlast]

end Received

/-! ## What is sent is received -/

/-- With descriptors there is a control message, and it fits. -/
theorem send_msg_eq (payload : Bytes) {fds : List RawFd} (hne : fds ≠ []) (hfds : fds.length ≤ MAX_FDS) :
    ∃ padding, send_msg payload fds = some ⟨payload,
      Cmsghdr.to_bytes ⟨CMSGHDR_SIZE + fds.length * 4, SOL_SOCKET, SCM_RIGHTS⟩ ++
        (fd_bytes fds ++ padding)⟩ := by
  have hspace := control_space_eq hfds
  have hbuffer : control_space MAX_FDS = 272 := rfl
  rw [MAX_FDS] at hfds
  rw [send_msg, if_neg hne]
  simp only [cmsg_data_len, hdr_align_eq, hbuffer]
  rw [if_neg (by rw [CMSGHDR_SIZE]; omega), List.take_append, List.take_of_length_le, List.append_assoc]
  · exact ⟨_, rfl⟩
  · rw [hspace, List.length_append, Cmsghdr.length_to_bytes, length_fd_bytes, CMSGHDR_SIZE]
    omega

/-- **The codec is lossless.**  A message of at most 64 descriptors whose payload fits is sent, and
received with the payload's length and the kernel's numbers in the order of the sender's; the walk
over the headers takes one round, and it makes no read that is not within `msg_controllen`, which is
within the receiver's buffer. -/
theorem recv_msg_send_msg (payload rest : Bytes) (fds got : List RawFd) (hfds : fds.length ≤ MAX_FDS)
    (hgot : got.length = fds.length) (pad : Nat) (hpad : pad = 8 ∨ pad = 16) (payload_len : Nat)
    (hfit : payload.length ≤ payload_len) (control_start fuel : Nat) :
    ∃ sent, send_msg payload fds = some sent ∧
      (deliver sent got pad rest).recv_msg control_start MAX_FDS payload_len (fuel + 1) =
        (payload.length, .done got) ∧
      (deliver sent got pad rest).msg_controllen ≤ control_space MAX_FDS := by
  by_cases hne : fds = []
  · subst hne
    obtain rfl := List.length_eq_zero_iff.1 hgot
    refine ⟨⟨payload, []⟩, rfl, ?_, Nat.zero_le _⟩
    rw [deliver, if_pos rfl, Received.recv_msg, if_pos (show 0 < CMSGHDR_SIZE by decide),
      Nat.min_eq_left hfit]
  obtain ⟨padding, hsent⟩ := send_msg_eq payload hne hfds
  refine ⟨_, hsent, ?_⟩
  have hbytes : Cmsghdr.to_bytes ⟨CMSGHDR_SIZE + fds.length * 4, SOL_SOCKET, SCM_RIGHTS⟩ ++
      (fd_bytes fds ++ padding) ≠ [] := by
    intro hnil
    have hlength := congrArg List.length hnil
    rw [List.length_append, Cmsghdr.length_to_bytes, CMSGHDR_SIZE, List.length_nil] at hlength
    omega
  obtain ⟨hroom, hend⟩ : got.length * 4 ≤ (got.length * 4 + (pad - 1)) / pad * pad ∧
      (got.length * 4 + (pad - 1)) / pad * pad ≤ (got.length * 4 + 15) / 16 * 16 := by
    rcases hpad with rfl | rfl
    · omega
    · omega
  have hgot' : got.length ≤ MAX_FDS := hgot ▸ hfds
  rw [deliver, if_neg hbytes, List.take_left' (Cmsghdr.length_to_bytes _), ← hgot, Received.recv_msg]
  simp only
  generalize (got.length * 4 + (pad - 1)) / pad * pad = space at hroom hend
  rw [if_neg (Nat.not_lt.2 (Nat.le_add_right ..)), Nat.min_eq_left hfit]
  have hview : (Cmsghdr.to_bytes ⟨CMSGHDR_SIZE + got.length * 4, SOL_SOCKET, SCM_RIGHTS⟩ ++ fd_bytes got ++
      rest).take (CMSGHDR_SIZE + space) =
        Cmsghdr.to_bytes ⟨CMSGHDR_SIZE + got.length * 4, SOL_SOCKET, SCM_RIGHTS⟩ ++ fd_bytes got ++
          rest.take (space - got.length * 4) := by
    rw [List.take_append, List.take_of_length_le]
    · rw [List.length_append, Cmsghdr.length_to_bytes, length_fd_bytes, Nat.add_sub_add_left]
    · rw [List.length_append, Cmsghdr.length_to_bytes, length_fd_bytes]
      exact Nat.add_le_add_left hroom _
  refine ⟨congrArg _ (Received.walk_one hview (Nat.le_add_right ..) (Nat.add_le_add_left hend _)
    hgot' hgot'), ?_⟩
  rw [control_space_eq (Nat.le_refl _), CMSGHDR_SIZE]
  omega

/-- Three descriptors, renumbered, and counted in steps of 8. -/
theorem recv_msg_send_msg_three :
    ∃ sent, send_msg [7] [5, 9, 5] = some sent ∧
      (deliver sent [3, 4, 6] 8 []).recv_msg 4096 MAX_FDS 24 1 = (1, .done [3, 4, 6]) ∧
      (deliver sent [3, 4, 6] 8 []).msg_controllen ≤ control_space MAX_FDS :=
  recv_msg_send_msg [7] [] [5, 9, 5] [3, 4, 6] (by decide) rfl 8 (.inl rfl) 24 (by decide) 4096 0

end Fsmon.Factory
