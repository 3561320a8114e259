/-
# `Fsmon.Lib.Checked` — machine arithmetic that panics

Sums, differences and products of `usize` and slices of a buffer, where an
overflow or an index out of range ends the program: `none`.  A computation made
of them is `some` exactly if all of its arithmetic is in range.

    add_of_le, sub_of_le   in range, they are those of the naturals
    mul_eq_none            out of range, a product panics
    slice_of_le            a slice in range is a `drop` and a `take`
    slice_middle           a slice of a concatenation
-/
import Mathlib.Data.Option.Basic

namespace Fsmon.Checked

/-- `usize::MAX`, of 64 bits. -/
def USIZE_MAX : Nat := 18446744073709551615

def add (a b : Nat) : Option Nat := if a + b ≤ USIZE_MAX then some (a + b) else none

def sub (a b : Nat) : Option Nat := if b ≤ a then some (a - b) else none

def mul (a b : Nat) : Option Nat := if a * b ≤ USIZE_MAX then some (a * b) else none

/-- `xs[i..j]`. -/
def slice {α : Type*} (xs : List α) (i j : Nat) : Option (List α) :=
  if i ≤ j ∧ j ≤ xs.length then some ((xs.drop i).take (j - i)) else none

theorem add_of_le {a b : Nat} (h : a + b ≤ USIZE_MAX) : add a b = some (a + b) := if_pos h

theorem sub_of_le {a b : Nat} (h : b ≤ a) : sub a b = some (a - b) := if_pos h

theorem mul_eq_none {a b : Nat} : mul a b = none ↔ USIZE_MAX < a * b := by
  rw [mul, ite_eq_right_iff, ← Nat.not_le]
  constructor
  · intro h hle
    cases h hle
  · intro h hle
    exact absurd hle h

theorem slice_of_le {α : Type*} {xs : List α} {i j : Nat} (hij : i ≤ j) (hj : j ≤ xs.length) :
    slice xs i j = some ((xs.drop i).take (j - i)) := if_pos ⟨hij, hj⟩

/-- A part of a concatenation. -/
theorem slice_middle {α : Type*} (pre mid post : List α) {i j : Nat} (hi : i = pre.length)
    (hj : j = pre.length + mid.length) : slice (pre ++ mid ++ post) i j = some mid := by
  subst hi hj
  rw [slice_of_le (Nat.le_add_right ..) (by rw [List.length_append, List.length_append]; omega),
    List.append_assoc, List.drop_left, Nat.add_sub_cancel_left, List.take_left]

end Fsmon.Checked
