/-
# `Fsmon.Lib.Tenths` — a count written with one decimal, and read back

A count `b` in units of `u` is written as the nearest number of tenths, `t`; the
text is read back as `t` tenths of `u`, made whole in one way or the other (cut
off, or rounded).

    rounds_iff    reading gives `b` back  ⟺  `b` is what some number of tenths reads as

The unit has to be 1 or at least 19: between them two numbers of tenths can be
less than a whole apart and the nearer one need not be the one that reads as `b`.
-/
import Mathlib.Algebra.Ring.Nat
import Mathlib.Data.Nat.Log

namespace Fsmon.Tenths

/-- `t` is a nearest number of tenths of `u` for `b`. -/
def Nearest (u b t : Nat) : Prop := 20 * b ≤ 2 * (t * u) + u ∧ 2 * (t * u) ≤ 20 * b + u

/-- A way to make tenths whole: less than a whole is lost or won. -/
def Wholes (whole : Nat → Nat) : Prop := ∀ n, n < 10 * whole n + 10 ∧ 10 * whole n < n + 10

theorem wholes_div : Wholes (· / 10) := by
  intro n
  dsimp only
  omega

/-- What some number of tenths of `u` reads as. -/
def Reads (whole : Nat → Nat) (u b : Nat) : Prop := ∃ t, whole (t * u) = b

theorem nearest_one {b t : Nat} (h : Nearest 1 b t) : t = 10 * b := by
  obtain ⟨h₁, h₂⟩ := h
  omega

/-- Two numbers of tenths that differ are a unit apart. -/
theorem apart {u t k : Nat} (h : t < k) : t * u + u ≤ k * u := by
  rw [← Nat.succ_mul]
  exact Nat.mul_le_mul_right u h

/-- Nothing else reads as `b` when something does. -/
theorem nearest_eq {whole : Nat → Nat} (hw : Wholes whole) {u b t k : Nat} (hu : 19 ≤ u)
    (h : Nearest u b t) (hk : whole (k * u) = b) : t = k := by
  obtain ⟨h₁, h₂⟩ := h
  obtain ⟨h₃, h₄⟩ := hw (k * u)
  rw [hk] at h₃ h₄
  rcases Nat.lt_trichotomy t k with hlt | heq | hgt
  · have := apart (u := u) hlt
    omega
  · exact heq
  · have := apart (u := u) hgt
    omega

theorem rounds_iff {whole : Nat → Nat} (hw : Wholes whole) {u b t : Nat} (hu : u = 1 ∨ 19 ≤ u)
    (h : Nearest u b t) : whole (t * u) = b ↔ Reads whole u b := by
  constructor
  · intro ht
    exact ⟨t, ht⟩
  · rintro ⟨k, hk⟩
    rcases hu with rfl | hu
    · have := hw (t * 1)
      have := nearest_one h
      omega
    · rw [nearest_eq hw hu h hk]
      exact hk

/-! ## Binary units -/

/-- The power of 1024 that `b` is written in, the largest one being `top`. -/
def power (top b : Nat) : Nat := min top (Nat.log 1024 b)

def unit (top b : Nat) : Nat := 1024 ^ power top b

theorem unit_ge (top b : Nat) : unit top b = 1 ∨ 19 ≤ unit top b := by
  rw [unit]
  cases power top b with
  | zero => exact .inl rfl
  | succ k =>
      have hk : 0 < 1024 ^ k := Nat.pow_pos (by omega)
      rw [Nat.pow_succ]
      omega

end Fsmon.Tenths
