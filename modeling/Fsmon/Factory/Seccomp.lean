/-
# `Fsmon.Factory.Seccomp` — the system calls the child may make

`build_filter`, with the whitelist and the architecture of the target as
arguments: first the program with empty jumps, then the patch of each jump to the
last instruction.  Patched, it is a chain of comparisons, each with the distance
to the end that is left (`build_filter_eq`).

    `checks_halt`         the chain, by induction on the calls that are left
    `build_filter_exact`  the program allows the listed calls and kills otherwise
    `eval_filter_of_run`  the interpreter of the source's tests agrees
-/
import Fsmon.Lib.Bpf
import Mathlib.Data.List.Nodup

namespace Fsmon.Factory

open Bpf (Insn Outcome State Halts)

abbrev SockFilter := Insn

def BPF_LD_W_ABS : BitVec 16 := 0x20
def BPF_JMP_JEQ_K : BitVec 16 := 0x15
def BPF_RET_K : BitVec 16 := 0x06

def SECCOMP_RET_KILL_PROCESS : BitVec 32 := 0x80000000
def SECCOMP_RET_ALLOW : BitVec 32 := 0x7fff0000

def SECCOMP_DATA_NR_OFF : BitVec 32 := 0
def SECCOMP_DATA_ARCH_OFF : BitVec 32 := 4

/-- What the kernel hands to the filter. -/
structure SeccompData where
  nr : BitVec 32
  arch : BitVec 32
  /-- The instruction pointer and the arguments, word by word. -/
  rest : List (BitVec 32)

/-- The word at an offset. -/
def SeccompData.load (d : SeccompData) (offset : BitVec 32) : Option (BitVec 32) :=
  if offset.toNat % 4 = 0 then (d.nr :: d.arch :: d.rest)[offset.toNat / 4]? else none

/-! ## The program -/

/-- `*n as u32`. -/
def as_u32 (n : BitVec 64) : BitVec 32 := n.setWidth 32

/-- Among numbers of 32 bits nothing is cut off. -/
theorem mem_map_as_u32 {ns : List (BitVec 64)} (h : ∀ n ∈ ns, n.toNat < 4294967296)
    (nr : BitVec 32) : nr ∈ ns.map as_u32 ↔ nr.setWidth 64 ∈ ns := by
  have hback : (nr.setWidth 64).setWidth 32 = nr := by
    apply BitVec.eq_of_toNat_eq
    have hnr := nr.isLt
    rw [BitVec.toNat_setWidth, BitVec.toNat_setWidth, Nat.mod_eq_of_lt (Nat.lt_trans hnr (by decide)),
      Nat.mod_eq_of_lt hnr]
  rw [List.mem_map]
  constructor
  · rintro ⟨n, hn, rfl⟩
    have hwhole : (n.setWidth 32).setWidth 64 = n := by
      apply BitVec.eq_of_toNat_eq
      rw [BitVec.toNat_setWidth, BitVec.toNat_setWidth, Nat.mod_eq_of_lt (h n hn),
        Nat.mod_eq_of_lt n.isLt]
    rw [as_u32, hwhole]
    exact hn
  · intro hn
    exact ⟨_, hn, hback⟩

section
variable (AUDIT_ARCH : BitVec 32) (ALLOWED_SYSCALLS : List (BitVec 64))

/-- Arch check.  On unknown architectures the check is skipped. -/
def arch_check : List SockFilter :=
  if AUDIT_ARCH ≠ 0 then
    [⟨BPF_LD_W_ABS, 0, 0, SECCOMP_DATA_ARCH_OFF⟩, ⟨BPF_JMP_JEQ_K, 1, 0, AUDIT_ARCH⟩,
      ⟨BPF_RET_K, 0, 0, SECCOMP_RET_KILL_PROCESS⟩]
  else []

/-- One round of the patch loop. -/
def patch (first_check allow_index : Nat) (f : List SockFilter) (i : Nat) : List SockFilter :=
  f.modify (first_check + i) fun ins =>
    { ins with jt := BitVec.ofNat 8 (allow_index - (first_check + i + 1)) }

/-- Build the seccomp-BPF program. -/
def build_filter : List SockFilter :=
  let f := arch_check AUDIT_ARCH ++ [⟨BPF_LD_W_ABS, 0, 0, SECCOMP_DATA_NR_OFF⟩]
  let first_check := f.length
  let f := f ++ ALLOWED_SYSCALLS.map fun n => ⟨BPF_JMP_JEQ_K, 0, 0, as_u32 n⟩
  let f := f ++ [⟨BPF_RET_K, 0, 0, SECCOMP_RET_KILL_PROCESS⟩]
  let allow_index := f.length
  let f := f ++ [⟨BPF_RET_K, 0, 0, SECCOMP_RET_ALLOW⟩]
  (List.range ALLOWED_SYSCALLS.length).foldl (patch first_check allow_index) f

end

/-! ## The patched program -/

/-- A comparison for each call, with the distance to the last instruction. -/
def checks : List (BitVec 64) → List SockFilter
  | [] => []
  | n :: ns => ⟨BPF_JMP_JEQ_K, BitVec.ofNat 8 (ns.length + 1), 0, as_u32 n⟩ :: checks ns

@[simp] theorem length_checks : ∀ ns, (checks ns).length = ns.length := by
  intro ns
  induction ns with
  | nil => rfl
  | cons n ns ih => rw [checks, List.length_cons, List.length_cons, ih]

theorem modify_length_append {α : Type*} (f : α → α) (a : α) (post : List α) :
    ∀ pre : List α, (pre ++ a :: post).modify pre.length f = pre ++ f a :: post := by
  intro pre
  induction pre with
  | nil => rfl
  | cons b pre ih => rw [List.cons_append, List.length_cons, List.modify_succ_cons, ih, List.cons_append]

/-- The patch loop from its `k`-th round on, the comparisons before it behind it already. -/
theorem patch_checks (base last : Nat) : ∀ (ns : List (BitVec 64)) (k : Nat)
    (pre post : List SockFilter), pre.length = base + k → last = pre.length + ns.length + 1 →
      (List.range' k ns.length).foldl (patch base last)
        (pre ++ (ns.map fun n => ⟨BPF_JMP_JEQ_K, 0, 0, as_u32 n⟩) ++ post) =
          pre ++ checks ns ++ post := by
  intro ns
  induction ns with
  | nil =>
      intro k pre post _ _
      rfl
  | cons n ns ih =>
      intro k pre post hpre hlast
      rw [List.length_cons] at hlast
      have hpatch : patch base last
          (pre ++ ((n :: ns).map fun n => ⟨BPF_JMP_JEQ_K, 0, 0, as_u32 n⟩) ++ post) k =
          (pre ++ [⟨BPF_JMP_JEQ_K, BitVec.ofNat 8 (ns.length + 1), 0, as_u32 n⟩]) ++
            (ns.map fun n => ⟨BPF_JMP_JEQ_K, 0, 0, as_u32 n⟩) ++ post := by
        have hdistance : last - (base + k + 1) = ns.length + 1 := by omega
        rw [patch, hdistance, ← hpre, List.map_cons, List.append_assoc, List.cons_append,
          modify_length_append, List.append_cons]
        simp only [List.append_assoc]
      rw [List.length_cons, List.range'_succ, List.foldl_cons, hpatch,
        ih (k + 1) _ post (by simp; omega) (by simp; omega)]
      simp [checks]

/-- The instructions before the comparisons. -/
def loads (AUDIT_ARCH : BitVec 32) : List SockFilter :=
  arch_check AUDIT_ARCH ++ [⟨BPF_LD_W_ABS, 0, 0, SECCOMP_DATA_NR_OFF⟩]

/-- The instructions behind them. -/
def returns : List SockFilter :=
  [⟨BPF_RET_K, 0, 0, SECCOMP_RET_KILL_PROCESS⟩, ⟨BPF_RET_K, 0, 0, SECCOMP_RET_ALLOW⟩]

theorem build_filter_eq (AUDIT_ARCH : BitVec 32) (ns : List (BitVec 64)) :
    build_filter AUDIT_ARCH ns = loads AUDIT_ARCH ++ checks ns ++ returns := by
  have hpatched := patch_checks (loads AUDIT_ARCH).length ((loads AUDIT_ARCH).length + ns.length + 1)
    ns 0 (loads AUDIT_ARCH) returns rfl rfl
  rw [← hpatched, build_filter, List.range_eq_range']
  simp [Nat.add_assoc, Nat.add_comm 1, loads, returns]

/-! ## Running it -/

/-- What the program answers to a call. -/
def verdict_of (ns : List (BitVec 64)) (nr : BitVec 32) : BitVec 32 :=
  if nr ∈ ns.map as_u32 then SECCOMP_RET_ALLOW else SECCOMP_RET_KILL_PROCESS

/-- **The chain of comparisons**: a call that is listed skips to the last instruction. -/
theorem checks_halt (input : BitVec 32 → Option (BitVec 32)) (nr : BitVec 32) :
    ∀ (ns : List (BitVec 64)) (pre : List SockFilter), ns.length ≤ 255 →
      Halts (pre ++ checks ns ++ returns) input ⟨pre.length, nr⟩ (.ret (verdict_of ns nr)) := by
  intro ns
  induction ns with
  | nil =>
      intro pre _
      refine .halt (@Bpf.step_ret _ _ _ _ 0 0 ?_)
      simp [checks, returns, BPF_RET_K, Bpf.RET_K, verdict_of]
  | cons n ns ih =>
      intro pre hlen
      rw [List.length_cons] at hlen
      have hat : (pre ++ checks (n :: ns) ++ returns)[pre.length]? =
          some ⟨Bpf.JMP_JEQ_K, BitVec.ofNat 8 (ns.length + 1), 0, as_u32 n⟩ := by
        simp [checks, BPF_JMP_JEQ_K, Bpf.JMP_JEQ_K]
      refine Halts.next (Bpf.step_jeq hat) ?_
      by_cases heq : nr = as_u32 n
      · have hjump : (BitVec.ofNat 8 (ns.length + 1)).toNat = ns.length + 1 := by
          rw [BitVec.toNat_ofNat]
          exact Nat.mod_eq_of_lt (by omega)
        have hlisted : verdict_of (n :: ns) nr = SECCOMP_RET_ALLOW := by
          simp [verdict_of, heq]
        rw [if_pos heq, hjump, hlisted]
        refine .halt (@Bpf.step_ret _ _ _ _ 0 0 ?_)
        have hindex : pre.length + 1 + (ns.length + 1) = (pre ++ checks (n :: ns)).length + 1 := by
          simp
          omega
        rw [hindex, List.getElem?_append_right (Nat.le_add_right ..), Nat.add_sub_cancel_left]
        rfl
      · have hverdict : verdict_of (n :: ns) nr = verdict_of ns nr := by
          simp [verdict_of, heq]
        have hrest := ih (pre ++ [⟨BPF_JMP_JEQ_K, BitVec.ofNat 8 (ns.length + 1), 0, as_u32 n⟩]) (by omega)
        rw [if_neg heq, hverdict]
        simpa [checks] using hrest

theorem load_nr (d : SeccompData) : d.load SECCOMP_DATA_NR_OFF = some d.nr := rfl

theorem load_arch (d : SeccompData) : d.load SECCOMP_DATA_ARCH_OFF = some d.arch := rfl

/-- The load of the number, and the comparisons behind it. -/
theorem tail_halt (d : SeccompData) {ns : List (BitVec 64)} (hlen : ns.length ≤ 255)
    (pre : List SockFilter) (A : BitVec 32) :
    Halts (pre ++ [⟨BPF_LD_W_ABS, 0, 0, SECCOMP_DATA_NR_OFF⟩] ++ checks ns ++ returns) d.load
      ⟨pre.length, A⟩ (.ret (verdict_of ns d.nr)) := by
  have hat : (pre ++ [⟨BPF_LD_W_ABS, 0, 0, SECCOMP_DATA_NR_OFF⟩] ++ checks ns ++ returns)[pre.length]? =
      some ⟨Bpf.LD_W_ABS, 0, 0, SECCOMP_DATA_NR_OFF⟩ := by
    simp [BPF_LD_W_ABS, Bpf.LD_W_ABS]
  refine Halts.next (Bpf.step_load hat (load_nr d)) ?_
  have hrest := checks_halt d.load d.nr ns (pre ++ [⟨BPF_LD_W_ABS, 0, 0, SECCOMP_DATA_NR_OFF⟩]) hlen
  rwa [List.length_append] at hrest

/-- The whole program, the architecture check first. -/
theorem build_filter_halts (d : SeccompData) {AUDIT_ARCH : BitVec 32} (harch : AUDIT_ARCH ≠ 0)
    {ns : List (BitVec 64)} (hlen : ns.length ≤ 255) :
    Halts (build_filter AUDIT_ARCH ns) d.load Bpf.start
      (.ret (if d.arch = AUDIT_ARCH then verdict_of ns d.nr else SECCOMP_RET_KILL_PROCESS)) := by
  rw [build_filter_eq, loads, arch_check, if_pos harch]
  refine Halts.next (@Bpf.step_load _ _ _ _ _ 0 0 rfl (load_arch d)) ?_
  refine Halts.next (@Bpf.step_jeq _ _ _ AUDIT_ARCH 1 0 rfl) ?_
  by_cases heq : d.arch = AUDIT_ARCH
  · rw [if_pos heq, if_pos heq]
    exact tail_halt d hlen [⟨BPF_LD_W_ABS, 0, 0, SECCOMP_DATA_ARCH_OFF⟩, ⟨BPF_JMP_JEQ_K, 1, 0, AUDIT_ARCH⟩,
      ⟨BPF_RET_K, 0, 0, SECCOMP_RET_KILL_PROCESS⟩] d.arch
  · rw [if_neg heq, if_neg heq]
    exact .halt (@Bpf.step_ret _ _ _ _ 0 0 rfl)

/-! ## The interpreter of the tests -/

section
variable (filter : List SockFilter) (arch nr : BitVec 32)

/-- `eval_filter`, from an accumulator and a counter; its panics are `none`. -/
def eval_filter : Nat → BitVec 32 → Nat → Option (BitVec 32)
  | 0, _, _ => none
  | fuel + 1, acc, pc =>
      match filter[pc]? with
      | none => none
      | some ins =>
          if ins.code = BPF_LD_W_ABS then
            eval_filter fuel (if ins.k = SECCOMP_DATA_ARCH_OFF then arch else nr) (pc + 1)
          else if ins.code = BPF_JMP_JEQ_K then
            eval_filter fuel acc (pc + 1 + (if acc = ins.k then ins.jt else ins.jf).toNat)
          else if ins.code = BPF_RET_K then some ins.k
          else none

end

/-- What `build_filter` is made of. -/
def Plain (ins : SockFilter) : Prop :=
  ins.code = BPF_LD_W_ABS ∧ (ins.k = SECCOMP_DATA_NR_OFF ∨ ins.k = SECCOMP_DATA_ARCH_OFF) ∨
    ins.code = BPF_JMP_JEQ_K ∨ ins.code = BPF_RET_K

theorem checks_plain : ∀ (ns : List (BitVec 64)), ∀ ins ∈ checks ns, Plain ins := by
  intro ns
  induction ns with
  | nil =>
      intro ins h
      cases h
  | cons n ns ih =>
      intro ins h
      rcases List.mem_cons.1 h with rfl | h
      · exact .inr (.inl rfl)
      · exact ih ins h

theorem build_filter_plain (AUDIT_ARCH : BitVec 32) (ns : List (BitVec 64)) :
    ∀ ins ∈ build_filter AUDIT_ARCH ns, Plain ins := by
  intro ins h
  rw [build_filter_eq, List.mem_append, List.mem_append, loads, List.mem_append, arch_check] at h
  rcases h with ((h | h) | h) | h
  · split at h
    · simp only [List.mem_cons, List.not_mem_nil, or_false] at h
      rcases h with rfl | rfl | rfl
      · exact .inl ⟨rfl, .inr rfl⟩
      · exact .inr (.inl rfl)
      · exact .inr (.inr rfl)
    · cases h
  · rw [List.mem_singleton.1 h]
    exact .inl ⟨rfl, .inl rfl⟩
  · exact checks_plain ns ins h
  · simp only [returns, List.mem_cons, List.not_mem_nil, or_false] at h
    rcases h with rfl | rfl
    · exact .inr (.inr rfl)
    · exact .inr (.inr rfl)

/-- A run that returns, by the interpreter of the tests. -/
theorem eval_filter_of_run {filter : List SockFilter} (hplain : ∀ ins ∈ filter, Plain ins)
    (d : SeccompData) {v : BitVec 32} : ∀ (fuel : Nat) (s : State),
      Bpf.run filter d.load fuel s = some (.ret v) →
        eval_filter filter d.arch d.nr fuel s.A s.pc = some v := by
  intro fuel
  induction fuel with
  | zero =>
      intro s h
      cases h
  | succ fuel ih =>
      intro s h
      rw [Bpf.run] at h
      rw [eval_filter]
      cases hat : filter[s.pc]? with
      | none =>
          rw [Bpf.step, hat] at h
          cases h
      | some ins =>
          obtain ⟨code, jt, jf, k⟩ := ins
          rcases hplain _ (List.mem_of_getElem? hat) with ⟨hcode, hk⟩ | hcode | hcode
          · obtain rfl : code = BPF_LD_W_ABS := hcode
            rcases hk with hk | hk
            · obtain rfl : k = SECCOMP_DATA_NR_OFF := hk
              rw [Bpf.step_load hat (load_nr d)] at h
              exact ih _ h
            · obtain rfl : k = SECCOMP_DATA_ARCH_OFF := hk
              rw [Bpf.step_load hat (load_arch d)] at h
              exact ih _ h
          · obtain rfl : code = BPF_JMP_JEQ_K := hcode
            rw [Bpf.step_jeq hat] at h
            exact ih _ h
          · obtain rfl : code = BPF_RET_K := hcode
            rw [Bpf.step_ret hat] at h
            cases h
            rfl

/-- **The whitelist is enforced exactly**, for a list that a byte's jump distance can cross: the
program ends, never leaves its own text, and allows a call iff it is made on the architecture and
is listed.  The interpreter of the tests finds the same. -/
theorem build_filter_exact {AUDIT_ARCH : BitVec 32} (harch : AUDIT_ARCH ≠ 0)
    {ALLOWED_SYSCALLS : List (BitVec 64)} (hlen : ALLOWED_SYSCALLS.length ≤ 250) (d : SeccompData) :
    Bpf.exec (build_filter AUDIT_ARCH ALLOWED_SYSCALLS) d.load =
        some (.ret (if d.arch = AUDIT_ARCH ∧ d.nr ∈ ALLOWED_SYSCALLS.map as_u32
          then SECCOMP_RET_ALLOW else SECCOMP_RET_KILL_PROCESS)) ∧
      (∀ s, Bpf.Reach (build_filter AUDIT_ARCH ALLOWED_SYSCALLS) d.load s →
        s.pc < (build_filter AUDIT_ARCH ALLOWED_SYSCALLS).length) ∧
      eval_filter (build_filter AUDIT_ARCH ALLOWED_SYSCALLS) d.arch d.nr
          ((build_filter AUDIT_ARCH ALLOWED_SYSCALLS).length + 1) 0 0 =
        some (if d.arch = AUDIT_ARCH ∧ d.nr ∈ ALLOWED_SYSCALLS.map as_u32
          then SECCOMP_RET_ALLOW else SECCOMP_RET_KILL_PROCESS) ∧
      ((∀ n ∈ ALLOWED_SYSCALLS, n.toNat < 4294967296) →
        (d.nr ∈ ALLOWED_SYSCALLS.map as_u32 ↔ d.nr.setWidth 64 ∈ ALLOWED_SYSCALLS)) := by
  have hhalts := build_filter_halts d harch (Nat.le_trans hlen (by decide))
  have hanswer : (if d.arch = AUDIT_ARCH then verdict_of ALLOWED_SYSCALLS d.nr
      else SECCOMP_RET_KILL_PROCESS) =
      if d.arch = AUDIT_ARCH ∧ d.nr ∈ ALLOWED_SYSCALLS.map as_u32 then SECCOMP_RET_ALLOW
        else SECCOMP_RET_KILL_PROCESS := by
    by_cases heq : d.arch = AUDIT_ARCH <;> simp [verdict_of, heq]
  rw [hanswer] at hhalts
  refine ⟨hhalts.exec, fun s hs => hhalts.inside hs, ?_, fun hsmall => ?_⟩
  · exact eval_filter_of_run (build_filter_plain _ _) d _ Bpf.start hhalts.exec
  · exact mem_map_as_u32 hsmall d.nr

/-- `AUDIT_ARCH` and `ALLOWED_SYSCALLS` on x86-64. -/
def X86_64 : BitVec 32 := 0xC000003E
def X86_64_SYSCALLS : List (BitVec 64) := [300, 301, 47, 46, 0, 1, 3, 231]

/-- `getpid`, number 39, on x86-64. -/
theorem build_filter_exact_x86_64 :
    Bpf.exec (build_filter X86_64 X86_64_SYSCALLS) (SeccompData.mk 39 X86_64 []).load =
        some (.ret (if X86_64 = X86_64 ∧ 39 ∈ X86_64_SYSCALLS.map as_u32
          then SECCOMP_RET_ALLOW else SECCOMP_RET_KILL_PROCESS)) ∧
      (39 ∈ X86_64_SYSCALLS.map as_u32 ↔ (39 : BitVec 32).setWidth 64 ∈ X86_64_SYSCALLS) := by
  obtain ⟨hexec, _, _, hsmall⟩ :=
    build_filter_exact (show X86_64 ≠ 0 by decide) (show X86_64_SYSCALLS.length ≤ 250 by decide)
      (SeccompData.mk 39 X86_64 [])
  exact ⟨hexec, hsmall (by simp [X86_64_SYSCALLS])⟩

end Fsmon.Factory
