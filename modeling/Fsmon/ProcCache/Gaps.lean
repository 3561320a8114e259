/-
# `Fsmon.ProcCache.Gaps` — which gaps a mapper reports

A CPU's numbers may come more than once, or out of order.  What should count is
the highest number delivered so far; the mapper keeps the last one.

    expected     the numbers above the highest that were passed over
    GapsExact    no addition overflows, and every result is the expected one
    InOrder      what a pair must be for that

An old number that comes again makes the mapper forget what came after it.
-/
import Fsmon.ProcCache

namespace Fsmon.ProcCache

/-- The highest number of one CPU. -/
def highest (cpu : Cpu) (pairs : List (Cpu × SeqNo)) : Option Nat :=
  ((numbers cpu pairs).map BitVec.toNat).max?

/-- The gap that a number opens after these pairs. -/
def expected (pairs : List (Cpu × SeqNo)) (cpu : Cpu) (seq : SeqNo) : Option SourceHealth :=
  match highest cpu pairs with
  | some h => if h + 1 < seq.toNat then some (.gapped (h + 1) (seq.toNat - 1)) else none
  | none => none

/-- Fed with these pairs, the mapper never overflows, reports the expected gaps, and a result does not
depend on other CPUs. -/
structure GapsExact (pairs : List (Cpu × SeqNo)) : Prop where
  fits : ∀ before p after, pairs = before ++ p :: after → (feed before).overflows p.1 = false
  result : ∀ before p after, pairs = before ++ p :: after →
    ((feed before).cursor p.1 p.2).2.1 = expected before p.1 p.2
  own : ∀ before p after, pairs = before ++ p :: after →
    ((feed before).cursor p.1 p.2).2.1 = ((feed (before.filter fun q => q.1 = p.1)).cursor p.1 p.2).2.1

/-- The last number of the CPU was not the largest of all, and it was its highest so far, unless the next one
is no jump from it anyway. -/
def InOrder (before : List (Cpu × SeqNo)) (p : Cpu × SeqNo) : Prop :=
  ∀ last, (numbers p.1 before).getLast? = some last →
    last ≠ BitVec.allOnes 32 ∧ (highest p.1 before = some last.toNat ∨ p.2 ≤ last + 1)

variable {pairs before : List (Cpu × SeqNo)} {cpu : Cpu} {seq last : SeqNo}

/-- The last number is at most the highest. -/
theorem highest_of_last (h : (numbers cpu pairs).getLast? = some last) :
    ∃ n, highest cpu pairs = some n ∧ last.toNat ≤ n := by
  have hmem : last.toNat ∈ (numbers cpu pairs).map BitVec.toNat :=
    List.mem_map_of_mem (List.mem_of_getLast? h)
  obtain ⟨n, hn⟩ := Option.isSome_iff_exists.1 (List.isSome_max?_of_mem hmem)
  exact ⟨n, hn, (List.max?_eq_some_iff.1 hn).2 _ hmem⟩

theorem highest_of_none (h : (numbers cpu pairs).getLast? = none) : highest cpu pairs = none := by
  rw [highest, List.getLast?_eq_none_iff.1 h]
  rfl

/-- One more than a number that is not the largest. -/
theorem toNat_succ (h : last ≠ BitVec.allOnes 32) : (last + 1).toNat = last.toNat + 1 := by
  have hlt : last.toNat ≠ 2 ^ 32 - 1 := fun heq =>
    h (BitVec.eq_of_toNat_eq (by rw [heq, BitVec.toNat_allOnes]))
  have hbound := last.isLt
  have hone : (1 : SeqNo).toNat = 1 := rfl
  rw [BitVec.toNat_add, hone]
  omega

/-- The gap above the last number is the one above the highest exactly if they are the same, or there is
none. -/
theorem gap_eq_iff {n : Nat} (hlast : last ≠ BitVec.allOnes 32) (hle : last.toNat ≤ n) :
    ((if last + 1 < seq then some (SourceHealth.gapped (last.toNat + 1) (seq.toNat - 1)) else none) =
        if n + 1 < seq.toNat then some (.gapped (n + 1) (seq.toNat - 1)) else none) ↔
      some n = some last.toNat ∨ seq ≤ last + 1 := by
  simp only [Option.some.injEq, BitVec.lt_def, BitVec.le_def, toNat_succ hlast]
  by_cases hjump : last.toNat + 1 < seq.toNat
  · rw [if_pos hjump]
    by_cases hn : n + 1 < seq.toNat
    · rw [if_pos hn, Option.some.injEq, SourceHealth.gapped.injEq]
      omega
    · rw [if_neg hn]
      refine iff_of_false (fun h => by cases h) ?_
      omega
  · rw [if_neg hjump, if_neg (by omega)]
    exact iff_of_true rfl (.inr (by omega))

/-- One pair: the mapper does what it should exactly if the pair is in order. -/
theorem cursor_exact_iff (before : List (Cpu × SeqNo)) (p : Cpu × SeqNo) :
    (feed before).overflows p.1 = false ∧ ((feed before).cursor p.1 p.2).2.1 = expected before p.1 p.2 ↔
      InOrder before p := by
  rw [EventMapper.overflows, show ((feed before).cursor p.1 p.2).2.1 = (feed before).jump p.1 p.2 from rfl,
    EventMapper.jump, lookup_feed, expected, InOrder]
  cases hlast : (numbers p.1 before).getLast? with
  | none =>
      rw [highest_of_none hlast]
      exact iff_of_true ⟨rfl, rfl⟩ fun last h => by cases h
  | some last =>
      obtain ⟨n, hn, hle⟩ := highest_of_last hlast
      simp only [hn, Option.some.injEq, forall_eq', decide_eq_false_iff_not]
      refine and_congr_right fun hne => ?_
      rw [gap_eq_iff hne hle, Option.some.injEq]

/-- The numbers of a CPU are among its own pairs. -/
theorem numbers_filter (cpu : Cpu) (pairs : List (Cpu × SeqNo)) :
    numbers cpu (pairs.filter fun q => q.1 = cpu) = numbers cpu pairs := by
  rw [numbers, numbers, List.filterMap_filter]
  congr 1
  funext q
  by_cases h : q.1 = cpu
  · simp [h]
  · simp [h]

theorem cursor_own (before : List (Cpu × SeqNo)) (p : Cpu × SeqNo) :
    ((feed before).cursor p.1 p.2).2.1 = ((feed (before.filter fun q => q.1 = p.1)).cursor p.1 p.2).2.1 := by
  show (feed before).jump p.1 p.2 = (feed _).jump p.1 p.2
  rw [EventMapper.jump, EventMapper.jump, lookup_feed, lookup_feed, numbers_filter]

/-- **Gaps are reported exactly** in the sequences in which no number follows, on its CPU, the largest of all,
nor jumps from one that is not the highest so far. -/
theorem gaps_exact_iff (pairs : List (Cpu × SeqNo)) :
    GapsExact pairs ↔ ∀ before p after, pairs = before ++ p :: after → InOrder before p := by
  constructor
  · intro h before p after hp
    exact (cursor_exact_iff before p).1 ⟨h.fits before p after hp, h.result before p after hp⟩
  · intro h
    refine ⟨fun before p after hp => ?_, fun before p after hp => ?_, fun before p _ _ => cursor_own before p⟩
    · exact ((cursor_exact_iff before p).2 (h before p after hp)).1
    · exact ((cursor_exact_iff before p).2 (h before p after hp)).2

/-- On CPU 0, 9 has been delivered when 7 comes again; then 9 comes again, and 8 is reported lost. -/
theorem gaps_after_redelivery : ¬ GapsExact [(0, 5), (0, 9), (0, 7), (0, 9)] := by
  intro h
  have hresult := h.result [(0, 5), (0, 9), (0, 7)] (0, 9) [] rfl
  revert hresult
  decide

end Fsmon.ProcCache
