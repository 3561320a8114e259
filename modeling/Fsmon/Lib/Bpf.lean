/-
# `Fsmon.Lib.Bpf` — classic BPF programs

The instructions that look at words of the input, compare the accumulator with
a constant and return.  A jump goes forward by a byte's distance, so every
program ends: it returns, or it leaves its own text, or it meets something it
cannot do.

    step         one instruction, from the accumulator and the counter
    run          with fuel;  `exec` has enough for every run of the program
    Halts        some fuel leads to an outcome;  rules to step forward and to end
    Reach        the states on the way
    Halts.exec   an outcome is what `exec` finds
    Halts.inside a run that returns has not left the program
-/
import Mathlib.Data.List.Basic

namespace Fsmon.Bpf

/-- `struct sock_filter`. -/
structure Insn where
  code : BitVec 16
  jt : BitVec 8
  jf : BitVec 8
  k : BitVec 32
  deriving DecidableEq, Repr

/-! ## The codes -/

/-- `BPF_LD | BPF_W | BPF_ABS`: a word of the input. -/
def LD_W_ABS : BitVec 16 := 0x20
/-- `BPF_LD | BPF_IMM`: a constant. -/
def LD_IMM : BitVec 16 := 0x00
/-- `BPF_JMP | BPF_JA`. -/
def JMP_JA : BitVec 16 := 0x05
/-- `BPF_JMP | BPF_JEQ | BPF_K`. -/
def JMP_JEQ_K : BitVec 16 := 0x15
/-- `BPF_JMP | BPF_JGT | BPF_K`. -/
def JMP_JGT_K : BitVec 16 := 0x25
/-- `BPF_JMP | BPF_JGE | BPF_K`. -/
def JMP_JGE_K : BitVec 16 := 0x35
/-- `BPF_JMP | BPF_JSET | BPF_K`. -/
def JMP_JSET_K : BitVec 16 := 0x45
/-- `BPF_RET | BPF_K`. -/
def RET_K : BitVec 16 := 0x06
/-- `BPF_RET | BPF_A`. -/
def RET_A : BitVec 16 := 0x16

/-! ## Running -/

structure State where
  /-- The next instruction. -/
  pc : Nat
  /-- The accumulator. -/
  A : BitVec 32
  deriving DecidableEq, Repr

/-- How a run ends. -/
inductive Outcome where
  | ret (v : BitVec 32)
  /-- Behind the end of the program. -/
  | outside
  /-- An unknown code, or a word the input does not have. -/
  | illegal
  deriving DecidableEq, Repr

/-- One step of a run. -/
inductive Step where
  | next (s : State)
  | halt (o : Outcome)
  deriving DecidableEq, Repr

/-- Where a comparison goes on. -/
def branch (i : Insn) (s : State) (taken : Bool) : Step :=
  .next ⟨s.pc + 1 + (if taken then i.jt else i.jf).toNat, s.A⟩

section
variable (p : List Insn) (input : BitVec 32 → Option (BitVec 32))

def step (s : State) : Step :=
  match p[s.pc]? with
  | none => .halt .outside
  | some i =>
      if i.code = LD_W_ABS then
        match input i.k with
        | some w => .next ⟨s.pc + 1, w⟩
        | none => .halt .illegal
      else if i.code = LD_IMM then .next ⟨s.pc + 1, i.k⟩
      else if i.code = JMP_JA then .next ⟨s.pc + 1 + i.k.toNat, s.A⟩
      else if i.code = JMP_JEQ_K then branch i s (s.A = i.k)
      else if i.code = JMP_JGT_K then branch i s (i.k.toNat < s.A.toNat)
      else if i.code = JMP_JGE_K then branch i s (i.k.toNat ≤ s.A.toNat)
      else if i.code = JMP_JSET_K then branch i s (s.A &&& i.k ≠ 0)
      else if i.code = RET_K then .halt (.ret i.k)
      else if i.code = RET_A then .halt (.ret s.A)
      else .halt .illegal

/-- `none` when the fuel runs out first. -/
def run : Nat → State → Option Outcome
  | 0, _ => none
  | n + 1, s =>
      match step p input s with
      | .next s' => run n s'
      | .halt o => some o

def start : State := ⟨0, 0⟩

/-- A run of the whole program. -/
def exec : Option Outcome := run p input (p.length + 1) start

/-- The states on the way. -/
inductive Reach : State → Prop
  | start : Reach start
  | next {s s' : State} : Reach s → step p input s = .next s' → Reach s'

/-- A run from `s` ends with `o`. -/
def Halts (s : State) (o : Outcome) : Prop := ∃ n, run p input n s = some o

end

variable {p : List Insn} {input : BitVec 32 → Option (BitVec 32)}

/-! ## The end of a run -/

theorem Halts.halt {s : State} {o : Outcome} (h : step p input s = .halt o) : Halts p input s o :=
  ⟨1, by rw [run, h]⟩

theorem Halts.next {s s' : State} {o : Outcome} (h : step p input s = .next s')
    (h' : Halts p input s' o) : Halts p input s o := by
  obtain ⟨n, hn⟩ := h'
  exact ⟨n + 1, by rw [run, h]; exact hn⟩

/-- More fuel changes nothing. -/
theorem run_mono : ∀ {n m : Nat} {s : State} {o : Outcome}, run p input n s = some o → n ≤ m →
    run p input m s = some o := by
  intro n
  induction n with
  | zero =>
      intro m s o h _
      cases h
  | succ n ih =>
      intro m s o h hm
      obtain ⟨m, rfl⟩ : ∃ k, m = k + 1 := ⟨m - 1, by omega⟩
      rw [run] at h ⊢
      cases hs : step p input s with
      | halt o' =>
          rw [hs] at h
          exact h
      | next s' =>
          rw [hs] at h
          exact ih h (Nat.le_of_succ_le_succ hm)

/-- A run ends in one way. -/
theorem Halts.unique {s : State} {o o' : Outcome} (h : Halts p input s o) (h' : Halts p input s o') :
    o = o' := by
  obtain ⟨n, hn⟩ := h
  obtain ⟨m, hm⟩ := h'
  have hboth := run_mono hn (Nat.le_max_left n m)
  rw [run_mono hm (Nat.le_max_right n m)] at hboth
  exact (Option.some.inj hboth).symm

/-! ## Every run ends -/

theorem branch_forward {i : Insn} {s s' : State} {taken : Bool} (h : branch i s taken = .next s') :
    s.pc < s'.pc := by
  cases h
  show s.pc < s.pc + 1 + _
  omega

/-- Every jump goes forward. -/
theorem step_forward {s s' : State} (h : step p input s = .next s') :
    s.pc < s'.pc ∧ s.pc < p.length := by
  rw [step] at h
  cases hat : p[s.pc]? with
  | none =>
      rw [hat] at h
      cases h
  | some i =>
      refine ⟨?_, (List.getElem?_eq_some_iff.1 hat).1⟩
      rw [hat] at h
      simp only at h
      split at h
      · cases hw : input i.k with
        | none =>
            rw [hw] at h
            cases h
        | some w =>
            rw [hw] at h
            cases h
            exact Nat.lt_succ_self _
      split at h
      · cases h
        exact Nat.lt_succ_self _
      split at h
      · cases h
        show s.pc < s.pc + 1 + _
        omega
      iterate 4
        split at h
        · exact branch_forward h
      split at h
      · cases h
      split at h <;> cases h

/-- The rest of the program, and one, is fuel enough. -/
theorem run_isSome : ∀ (n : Nat) (s : State), p.length ≤ s.pc + n →
    ∃ o, run p input (n + 1) s = some o := by
  intro n
  induction n with
  | zero =>
      intro s h
      have hout : p[s.pc]? = none := List.getElem?_eq_none h
      exact ⟨.outside, by rw [run, step, hout]⟩
  | succ n ih =>
      intro s h
      rw [run]
      cases hs : step p input s with
      | halt o => exact ⟨o, rfl⟩
      | next s' =>
          have hforward := (step_forward hs).1
          exact ih s' (by omega)

/-- An outcome is the one `exec` finds. -/
theorem Halts.exec {o : Outcome} (h : Halts p input start o) : exec p input = some o := by
  obtain ⟨o', ho'⟩ := @run_isSome p input p.length start (Nat.le_add_left ..)
  rw [Bpf.exec, ho', Halts.unique h ⟨_, ho'⟩]

/-! ## The states on the way -/

/-- What a run reaches ends as the run does. -/
theorem Reach.halts {s : State} {o : Outcome} (hr : Reach p input s) (h : Halts p input Bpf.start o) :
    Halts p input s o := by
  induction hr with
  | start => exact h
  | next _ hs ih =>
      obtain ⟨n, hn⟩ := ih
      cases n with
      | zero => cases hn
      | succ n =>
          rw [run, hs] at hn
          exact ⟨n, hn⟩

/-- A run that returns never leaves the program. -/
theorem Halts.inside {v : BitVec 32} (h : Halts p input start (.ret v)) {s : State}
    (hr : Reach p input s) : s.pc < p.length := by
  by_contra hout
  have hnone : p[s.pc]? = none := List.getElem?_eq_none (Nat.le_of_not_lt hout)
  have hstep : step p input s = .halt .outside := by rw [step, hnone]
  cases Halts.unique (hr.halts h) (Halts.halt hstep)

/-! ## Single instructions -/

theorem step_load {s : State} {k w : BitVec 32} {jt jf : BitVec 8}
    (hat : p[s.pc]? = some ⟨LD_W_ABS, jt, jf, k⟩) (hw : input k = some w) :
    step p input s = .next ⟨s.pc + 1, w⟩ := by
  simp [step, hat, hw]

theorem step_jeq {s : State} {k : BitVec 32} {jt jf : BitVec 8}
    (hat : p[s.pc]? = some ⟨JMP_JEQ_K, jt, jf, k⟩) :
    step p input s = .next ⟨s.pc + 1 + (if s.A = k then jt else jf).toNat, s.A⟩ := by
  by_cases hk : s.A = k <;> simp [step, hat, branch, hk, LD_W_ABS, LD_IMM, JMP_JA, JMP_JEQ_K]

theorem step_ret {s : State} {k : BitVec 32} {jt jf : BitVec 8}
    (hat : p[s.pc]? = some ⟨RET_K, jt, jf, k⟩) : step p input s = .halt (.ret k) := by
  simp [step, hat, LD_W_ABS, LD_IMM, JMP_JA, JMP_JEQ_K, JMP_JGT_K, JMP_JGE_K, JMP_JSET_K, RET_K]

end Fsmon.Bpf
