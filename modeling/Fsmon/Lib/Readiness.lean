/-
# `Fsmon.Lib.Readiness` — a queue that is announced by edges

A source of items and a task that reads them.  An arrival is an edge, which the
runtime turns into readiness at its next poll; readiness stays until the task
clears it, and each announcement has a number.  A task that has looked in vain
clears the announcement that it was woken by, and no later one.

    Source              the queue, the edge, and the readiness with its number
    Awake               what is in the queue is announced, or will be
    Covered g           the same, once announcement `g` is cleared
    clear_awake         clearing what one was woken by keeps a covered source awake
-/
import Mathlib.Logic.Basic

namespace Fsmon.Readiness

structure Source (κ : Type*) where
  queue : List κ
  /-- An arrival that the runtime has not looked at. -/
  edge : Bool
  ready : Bool
  /-- The number of the last announcement. -/
  tick : Nat

variable {κ : Type*}

namespace Source

/-- A source that is watched from now on: what is there counts as an arrival. -/
def watch (queue : List κ) : Source κ := ⟨queue, !queue.isEmpty, false, 0⟩

def arrive (s : Source κ) (k : κ) : Source κ := { s with queue := s.queue ++ [k], edge := true }

/-- The runtime looks: an edge is announced if there still is something. -/
def poll (s : Source κ) : Source κ :=
  if s.edge then
    if s.queue.isEmpty then { s with edge := false }
    else { s with edge := false, ready := true, tick := s.tick + 1 }
  else s

def drop (s : Source κ) (n : Nat) : Source κ := { s with queue := s.queue.drop n }

/-- Clear the announcement, if it is the last one. -/
def clear (s : Source κ) (guard : Nat) : Source κ := if s.tick = guard then { s with ready := false } else s

/-- What is in the queue is announced, or will be. -/
def Awake (s : Source κ) : Prop := s.queue = [] ∨ s.ready = true ∨ s.edge = true

/-- So it is without the announcement `guard`. -/
def Covered (guard : Nat) (s : Source κ) : Prop :=
  s.queue = [] ∨ (s.ready = true ∧ guard < s.tick) ∨ s.edge = true

end Source

open Source

variable {s : Source κ} {guard : Nat}

theorem watch_awake (queue : List κ) : (watch queue).Awake := by
  cases queue with
  | nil => exact .inl rfl
  | cons k queue => exact .inr (.inr rfl)

theorem arrive_awake (s : Source κ) (k : κ) : (s.arrive k).Awake := .inr (.inr rfl)

theorem arrive_covered (s : Source κ) (k : κ) : (s.arrive k).Covered guard := .inr (.inr rfl)

theorem poll_tick (s : Source κ) : s.tick ≤ s.poll.tick := by
  rw [poll]
  split
  · split
    · exact Nat.le_refl _
    · exact Nat.le_succ _
  · exact Nat.le_refl _

theorem poll_queue (s : Source κ) : s.poll.queue = s.queue := by
  rw [poll]
  split
  · split <;> rfl
  · rfl

theorem poll_ready (h : s.ready = true) : s.poll.ready = true := by
  rw [poll]
  split
  · split
    · exact h
    · rfl
  · exact h

theorem poll_awake (h : s.Awake) : s.poll.Awake := by
  rw [poll]
  split
  · split
    · rename_i hempty
      exact .inl (List.isEmpty_iff.1 hempty)
    · exact .inr (.inl rfl)
  · exact h

theorem poll_covered (hguard : guard ≤ s.tick) (h : s.Covered guard) : s.poll.Covered guard := by
  rw [poll]
  split
  · split
    · rename_i hempty
      exact .inl (List.isEmpty_iff.1 hempty)
    · exact .inr (.inl ⟨rfl, Nat.lt_succ_of_le hguard⟩)
  · exact h

/-- Clearing what one was woken by keeps a covered source awake. -/
theorem clear_awake (h : s.Covered guard) : (s.clear guard).Awake := by
  rw [clear]
  split
  · rename_i htick
    rcases h with h | ⟨-, hlt⟩ | h
    · exact .inl h
    · exact absurd htick (Nat.ne_of_gt hlt)
    · exact .inr (.inr h)
  · rcases h with h | ⟨h, -⟩ | h
    · exact .inl h
    · exact .inr (.inl h)
    · exact .inr (.inr h)

end Fsmon.Readiness
