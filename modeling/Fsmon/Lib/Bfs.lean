/-
# `Fsmon.Lib.Bfs` — a queue walk over a forest, and how many turns it needs

A walk takes the head of its queue, and puts what is `next` to it at the end.
There is no set of visited elements: that the walk ends is a property of `next`.
When `next` is a forest, in which an element is next to one element at most and a
start to none, no element is visited twice (`nodup_visits`); so a walk over a
finite universe leaves its queue empty after as many turns as the universe has
elements (`left_eq_nil`), and it has visited all that can be reached
(`mem_visits_of_reaches`), one level after the other (`visits_eq_levels`).

Nothing here mentions a particular walk.
-/
import Mathlib.Data.List.Nodup
import Mathlib.Logic.Relation

namespace Fsmon.Bfs

variable {α : Type*} (next : α → List α)

/-- What is visited in at most `n` turns, in order. -/
def visits : Nat → List α → List α
  | 0, _ => []
  | _ + 1, [] => []
  | n + 1, a :: q => a :: visits n (q ++ next a)

/-- The queue after at most `n` turns. -/
def left : Nat → List α → List α
  | 0, q => q
  | _ + 1, [] => []
  | n + 1, a :: q => left n (q ++ next a)

/-- `b` can be reached from `a`. -/
def Reaches : α → α → Prop := Relation.ReflTransGen fun a b => b ∈ next a

variable {next}

/-! ## Nothing is lost -/

theorem mem_visits_or_left (n : Nat) (q : List α) :
    ∀ a ∈ q, a ∈ visits next n q ∨ a ∈ left next n q := by
  induction n generalizing q with
  | zero =>
      intro a ha
      exact .inr ha
  | succ n ih =>
      intro a ha
      cases q with
      | nil => cases ha
      | cons b q =>
          rcases List.mem_cons.1 ha with rfl | ha
          · exact .inl List.mem_cons_self
          · rcases ih (q ++ next b) a (List.mem_append_left _ ha) with hv | hl
            · exact .inl (List.mem_cons_of_mem _ hv)
            · exact .inr hl

/-- What is next to a visited element is visited, or still in the queue. -/
theorem next_visited (n : Nat) (q : List α) : ∀ a ∈ visits next n q, ∀ b ∈ next a,
    b ∈ visits next n q ∨ b ∈ left next n q := by
  induction n generalizing q with
  | zero =>
      intro a ha
      cases ha
  | succ n ih =>
      intro a ha b hb
      cases q with
      | nil => cases ha
      | cons c q =>
          have hrest : b ∈ visits next n (q ++ next c) ∨ b ∈ left next n (q ++ next c) := by
            rcases List.mem_cons.1 ha with rfl | ha
            · exact mem_visits_or_left n _ b (List.mem_append_right _ hb)
            · exact ih _ a ha b hb
          rcases hrest with hv | hl
          · exact .inl (List.mem_cons_of_mem _ hv)
          · exact .inr hl

/-- **Completeness**: a walk whose queue is empty has visited all that can be reached. -/
theorem mem_visits_of_reaches {n : Nat} {q : List α} (hend : left next n q = []) {a b : α}
    (ha : a ∈ q) (h : Reaches next a b) : b ∈ visits next n q := by
  have hall : ∀ c, c ∈ visits next n q ∨ c ∈ left next n q → c ∈ visits next n q := by
    intro c hc
    rw [hend] at hc
    exact hc.resolve_right List.not_mem_nil
  induction h with
  | refl => exact hall a (mem_visits_or_left n q a ha)
  | tail _ hbc ih => exact hall _ (next_visited n q _ ih _ hbc)

/-- What is visited has been reached. -/
theorem reaches_of_mem_visits (n : Nat) (q : List α) :
    ∀ b ∈ visits next n q ++ left next n q, ∃ a ∈ q, Reaches next a b := by
  induction n generalizing q with
  | zero =>
      intro b hb
      exact ⟨b, hb, .refl⟩
  | succ n ih =>
      intro b hb
      cases q with
      | nil => cases hb
      | cons c q =>
          rcases List.mem_cons.1 hb with rfl | hb
          · exact ⟨b, List.mem_cons_self, .refl⟩
          · obtain ⟨a, ha, hreach⟩ := ih _ b hb
            rcases List.mem_append.1 ha with ha | ha
            · exact ⟨a, List.mem_cons_of_mem _ ha, hreach⟩
            · exact ⟨c, List.mem_cons_self, .head ha hreach⟩

/-! ## Nothing comes twice -/

/-- An element is next to one element at most, and to none more than once. -/
structure Forest (next : α → List α) : Prop where
  nodup : ∀ a, (next a).Nodup
  parent : ∀ {a a' b}, b ∈ next a → b ∈ next a' → a = a'

/-- What has been visited and what is queued are distinct, and each is a start or next to something
that has been visited. -/
structure Apart (next : α → List α) (starts done q : List α) : Prop where
  nodup : (done ++ q).Nodup
  origin : ∀ b ∈ done ++ q, b ∈ starts ∨ ∃ a ∈ done, b ∈ next a

theorem Apart.turn {starts done q : List α} {a : α} (hforest : Forest next)
    (hstarts : ∀ b ∈ starts, ∀ c, b ∉ next c) (h : Apart next starts done (a :: q)) :
    Apart next starts (done ++ [a]) (q ++ next a) := by
  have hassoc : done ++ [a] ++ (q ++ next a) = (done ++ a :: q) ++ next a := by
    simp only [List.append_assoc, List.cons_append, List.nil_append]
  have ha : a ∉ done := fun hd =>
    List.disjoint_of_nodup_append h.nodup hd List.mem_cons_self
  have hnew : ∀ b ∈ next a, b ∉ done ++ a :: q := by
    intro b hb hmem
    rcases h.origin b hmem with hs | ⟨c, hc, hbc⟩
    · exact hstarts b hs a hb
    · -- the only element it is next to has not been visited yet
      exact ha (hforest.parent hbc hb ▸ hc)
  refine ⟨?_, fun b hb => ?_⟩
  · rw [hassoc]
    exact List.Nodup.append h.nodup (hforest.nodup a) fun b hmem hb => hnew b hb hmem
  · rw [hassoc] at hb
    rcases List.mem_append.1 hb with hb | hb
    · rcases h.origin b hb with hs | ⟨c, hc, hbc⟩
      · exact .inl hs
      · exact .inr ⟨c, List.mem_append_left _ hc, hbc⟩
    · exact .inr ⟨a, List.mem_append_right _ (List.mem_singleton_self a), hb⟩

theorem Apart.run {starts : List α} (hforest : Forest next)
    (hstarts : ∀ b ∈ starts, ∀ c, b ∉ next c) (n : Nat) (done q : List α)
    (h : Apart next starts done q) :
    Apart next starts (done ++ visits next n q) (left next n q) := by
  induction n generalizing done q with
  | zero =>
      rw [visits, left, List.append_nil]
      exact h
  | succ n ih =>
      cases q with
      | nil =>
          rw [visits, left, List.append_nil]
          exact h
      | cons a q =>
          have hrun := ih (done ++ [a]) (q ++ next a) (h.turn hforest hstarts)
          rw [List.append_assoc, List.singleton_append] at hrun
          exact hrun

/-- No element is visited twice, or visited and still queued. -/
theorem nodup_visits {q : List α} (hforest : Forest next) (hq : q.Nodup)
    (hstarts : ∀ b ∈ q, ∀ c, b ∉ next c) (n : Nat) : (visits next n q ++ left next n q).Nodup := by
  have hstart : Apart next q [] q := ⟨hq, fun b hb => .inl hb⟩
  exact (hstart.run hforest hstarts n).nodup

theorem length_visits (n : Nat) (q : List α) (h : left next n q ≠ []) :
    (visits next n q).length = n := by
  induction n generalizing q with
  | zero => rfl
  | succ n ih =>
      cases q with
      | nil => exact absurd rfl h
      | cons a q =>
          rw [visits, List.length_cons, ih (q ++ next a) h]

/-- **Termination**: as many turns as there are elements empty the queue. -/
theorem left_eq_nil {q all : List α} (hforest : Forest next) (hq : q.Nodup)
    (hstarts : ∀ b ∈ q, ∀ c, b ∉ next c)
    (hall : ∀ a ∈ q, ∀ b, Reaches next a b → b ∈ all) :
    left next all.length q = [] := by
  by_contra hne
  have hsub : visits next all.length q ++ left next all.length q ⊆ all := by
    intro b hb
    obtain ⟨a, ha, hreach⟩ := reaches_of_mem_visits _ q b hb
    exact hall a ha b hreach
  have hle := List.Nodup.length_le_of_subset (nodup_visits hforest hq hstarts all.length) hsub
  rw [List.length_append, length_visits _ q hne] at hle
  have hpos : 0 < (left next all.length q).length := List.length_pos_of_ne_nil hne
  omega

/-! ## Level by level -/

variable (next) in
/-- What is `n` steps away from a list, in the order of the steps. -/
def level : Nat → List α → List α
  | 0, q => q
  | n + 1, q => level n (q.flatMap next)

theorem level_succ (n : Nat) (q : List α) : level next (n + 1) q = (level next n q).flatMap next := by
  induction n generalizing q with
  | zero => rfl
  | succ n ih => exact ih (q.flatMap next)

theorem level_nil (n : Nat) : level next n [] = [] := by
  induction n with
  | zero => rfl
  | succ n ih => exact ih

/-- The elements of a queue are taken before what they add. -/
theorem visits_append (q : List α) : ∀ (n : Nat) (r : List α),
    visits next (q.length + n) (q ++ r) = q ++ visits next n (r ++ q.flatMap next) ∧
      left next (q.length + n) (q ++ r) = left next n (r ++ q.flatMap next) := by
  induction q with
  | nil =>
      intro n r
      rw [List.length_nil, Nat.zero_add, List.nil_append, List.flatMap_nil, List.append_nil]
      exact ⟨rfl, rfl⟩
  | cons a q ih =>
      intro n r
      obtain ⟨hvisits, hleft⟩ := ih n (r ++ next a)
      rw [List.append_assoc, ← List.flatMap_cons] at hvisits hleft
      rw [List.length_cons, Nat.add_right_comm, List.cons_append, visits, left, List.append_assoc]
      exact ⟨congrArg (a :: ·) hvisits, hleft⟩

/-- A walk that ends has had a turn for each element of its queue. -/
theorem length_le_of_left : ∀ (n : Nat) (q : List α), left next n q = [] → q.length ≤ n := by
  intro n
  induction n with
  | zero =>
      rintro q rfl
      exact Nat.le_refl 0
  | succ n ih =>
      intro q hend
      cases q with
      | nil => exact Nat.zero_le _
      | cons a q =>
          have hle := ih (q ++ next a) hend
          rw [List.length_append] at hle
          rw [List.length_cons]
          omega

/-- **Breadth first**: a walk that ends has visited one level after the other. -/
theorem visits_eq_levels (n : Nat) : ∀ q : List α, left next n q = [] →
    visits next n q = (List.range n).flatMap (fun i => level next i q) ∧
      ∀ i, n ≤ i → level next i q = [] := by
  induction n using Nat.strongRecOn with
  | ind n ih =>
      intro q hend
      rcases Nat.eq_zero_or_pos q.length with hq | hq
      · rw [List.length_eq_zero_iff.1 hq]
        refine ⟨?_, fun i _ => level_nil i⟩
        cases n with
        | zero => rfl
        | succ n => simp [visits, level_nil]
      · -- the whole queue is taken first; what it adds is left to a shorter walk
        obtain ⟨k, rfl⟩ := Nat.exists_eq_add_of_le (length_le_of_left n q hend)
        have htaken : visits next (q.length + k) (q ++ []) = q ++ visits next k ([] ++ q.flatMap next) ∧
            left next (q.length + k) (q ++ []) = left next k ([] ++ q.flatMap next) := visits_append q k []
        obtain ⟨hvisits, hleft⟩ := htaken
        rw [List.append_nil, List.nil_append] at hvisits hleft
        obtain ⟨hrest, hempty⟩ := ih k (by omega) (q.flatMap next) (hleft ▸ hend)
        have hfew : ∀ i, k < i → level next i q = [] := by
          intro i hi
          obtain ⟨j, rfl⟩ := Nat.exists_eq_add_of_lt hi
          exact hempty (k + j) (Nat.le_add_right k j)
        refine ⟨?_, fun i hi => hfew i (by omega)⟩
        have hrange : (List.range (q.length + k)).flatMap (fun i => level next i q) =
            (List.range (k + 1)).flatMap fun i => level next i q := by
          obtain ⟨j, hj⟩ := Nat.exists_eq_add_of_le (show k + 1 ≤ q.length + k by omega)
          rw [hj, List.range_add, List.flatMap_append, List.flatMap_map]
          have hnone : (List.range j).flatMap (fun i => level next (k + 1 + i) q) = [] :=
            List.flatMap_eq_nil_iff.2 fun i _ => hfew _ (by omega)
          rw [hnone, List.append_nil]
        rw [hvisits, hrest, hrange, List.range_succ_eq_map, List.flatMap_cons, List.flatMap_map]
        rfl

end Fsmon.Bfs
