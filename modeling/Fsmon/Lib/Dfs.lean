/-
# `Fsmon.Lib.Dfs` — a walk that goes down before it goes on

    visits next n a     `a`, then what is visited from each element that is next to it,
                        at most `n` deep

What is visited is what `Bfs.level` has at a smaller depth (`mem_visits`).  Where
`next` is a forest that goes down a level at each step, nothing is visited twice
(`nodup_visits`).

Nothing here mentions a particular walk.
-/
import Fsmon.Lib.Bfs

namespace Fsmon

namespace Bfs

variable {α : Type*} {next : α → List α}

/-- The elements of a list each have their own levels. -/
theorem mem_level (n : Nat) : ∀ {q : List α} {b : α},
    b ∈ level next n q ↔ ∃ a ∈ q, b ∈ level next n [a] := by
  induction n with
  | zero =>
      intro q b
      simp [level]
  | succ n ih =>
      intro q b
      simp only [level_succ, List.mem_flatMap]
      constructor
      · rintro ⟨c, hc, hb⟩
        obtain ⟨a, ha, hc⟩ := ih.1 hc
        exact ⟨a, ha, c, hc, hb⟩
      · rintro ⟨a, ha, c, hc, hb⟩
        exact ⟨c, ih.2 ⟨a, ha, hc⟩, hb⟩

theorem mem_level_cons {n : Nat} {a b : α} :
    b ∈ level next (n + 1) [a] ↔ ∃ c ∈ next a, b ∈ level next n [c] := by
  rw [level, List.flatMap_singleton]
  exact mem_level n

/-- Where a level is empty, the one before it is empty for each element next to the first. -/
theorem level_next_eq_nil {n : Nat} {a c : α} (h : level next (n + 1) [a] = []) (hc : c ∈ next a) :
    level next n [c] = [] := by
  refine List.eq_nil_iff_forall_not_mem.2 fun b hb => ?_
  have hmem := mem_level_cons.2 ⟨c, hc, hb⟩
  rw [h] at hmem
  cases hmem

/-- In a forest the levels of two elements have nothing in common. -/
theorem Forest.level_parent (h : Forest next) {a a' : α} : ∀ {n : Nat} {b : α},
    b ∈ level next n [a] → b ∈ level next n [a'] → a = a' := by
  intro n
  induction n with
  | zero =>
      intro b hb hb'
      rw [← List.mem_singleton.1 hb, ← List.mem_singleton.1 hb']
  | succ n ih =>
      intro b hb hb'
      rw [level_succ] at hb hb'
      obtain ⟨c, hc, hbc⟩ := List.mem_flatMap.1 hb
      obtain ⟨c', hc', hbc'⟩ := List.mem_flatMap.1 hb'
      exact ih hc (h.parent hbc hbc' ▸ hc')

end Bfs

namespace Dfs

variable {α : Type*} (next : α → List α)

/-- What is visited from `a`, at most `n` deep. -/
def visits : Nat → α → List α
  | 0, _ => []
  | n + 1, a => a :: (next a).flatMap (visits n)

variable {next}

theorem mem_visits (n : Nat) : ∀ {a b : α},
    b ∈ visits next n a ↔ ∃ m < n, b ∈ Bfs.level next m [a] := by
  induction n with
  | zero =>
      intro a b
      simp [visits]
  | succ n ih =>
      intro a b
      rw [visits, List.mem_cons, List.mem_flatMap]
      constructor
      · rintro (rfl | ⟨c, hc, hb⟩)
        · exact ⟨0, Nat.succ_pos n, List.mem_singleton_self b⟩
        · obtain ⟨m, hm, hb⟩ := ih.1 hb
          exact ⟨m + 1, Nat.succ_lt_succ hm, Bfs.mem_level_cons.2 ⟨c, hc, hb⟩⟩
      · rintro ⟨m, hm, hb⟩
        cases m with
        | zero => exact .inl (List.mem_singleton.1 hb)
        | succ m =>
            obtain ⟨c, hc, hb⟩ := Bfs.mem_level_cons.1 hb
            exact .inr ⟨c, hc, ih.2 ⟨m, Nat.lt_of_succ_lt_succ hm, hb⟩⟩

/-- Each step goes down a level. -/
theorem depth_of_level {depth : α → Nat} (hdepth : ∀ {a b}, b ∈ next a → depth b = depth a + 1)
    {a : α} : ∀ {n : Nat} {b : α}, b ∈ Bfs.level next n [a] → depth b = depth a + n := by
  intro n
  induction n with
  | zero =>
      intro b hb
      rw [List.mem_singleton.1 hb]
      rfl
  | succ n ih =>
      intro b hb
      rw [Bfs.level_succ] at hb
      obtain ⟨c, hc, hbc⟩ := List.mem_flatMap.1 hb
      rw [hdepth hbc, ih hc]
      rfl

/-- Nothing is visited twice. -/
theorem nodup_visits {depth : α → Nat} (hforest : Bfs.Forest next)
    (hdepth : ∀ {a b}, b ∈ next a → depth b = depth a + 1) (n : Nat) :
    ∀ a : α, (visits next n a).Nodup := by
  induction n with
  | zero =>
      intro a
      exact List.nodup_nil
  | succ n ih =>
      intro a
      have hlevel : ∀ {m : Nat} {c b : α}, b ∈ Bfs.level next m [c] → depth b = depth c + m :=
        depth_of_level hdepth
      rw [visits, List.nodup_cons]
      refine ⟨fun ha => ?_, List.nodup_flatMap.2 ⟨fun c _ => ih c, ?_⟩⟩
      · -- everything below is deeper
        obtain ⟨c, hc, hmem⟩ := List.mem_flatMap.1 ha
        obtain ⟨m, _, hmem⟩ := (mem_visits n).1 hmem
        have hcycle := hlevel hmem
        rw [hdepth hc] at hcycle
        omega
      · refine (hforest.nodup a).imp_of_mem fun {c c'} hc hc' hne => ?_
        intro b hb hb'
        obtain ⟨m, _, hb⟩ := (mem_visits n).1 hb
        obtain ⟨m', _, hb'⟩ := (mem_visits n).1 hb'
        have hsame : m = m' := by
          have hb := hlevel hb
          have hb' := hlevel hb'
          rw [hdepth hc] at hb
          rw [hdepth hc'] at hb'
          omega
        exact hne (hforest.level_parent hb (hsame ▸ hb'))

end Dfs

end Fsmon
