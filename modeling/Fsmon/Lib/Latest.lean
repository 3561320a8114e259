/-
# `Fsmon.Lib.Latest` — the latest value of each key

A map that is fed one value after the other and keeps, for each key, a value that
none of the others of its key comes after; of values of one time the first stays.

    insert_latest      a later value takes the place of the one that is there
    Latest xs m        `m` holds the latest of `xs` for each key, and nothing else
    latest_foldl       feeding `ys` to `m` makes it hold the latest of `xs ++ ys`

The values of such a map have distinct keys whatever order they are taken in
(`Latest.nodup_values`).
-/
import Fsmon.Lib.HashMap
import Mathlib.Order.Lattice

namespace Fsmon

namespace HashMap

/-- The values of a map, in the order of its entries. -/
def values {κ υ : Type} (m : HashMap κ υ) : List υ := m.entries.map Sigma.snd

theorem mem_values {κ υ : Type} [DecidableEq κ] {m : HashMap κ υ} {v : υ} :
    v ∈ m.values ↔ ∃ k, m.lookup k = some v := by
  rw [values, List.mem_map]
  constructor
  · rintro ⟨e, he, rfl⟩
    exact ⟨e.1, AList.mem_lookup_iff.2 he⟩
  · rintro ⟨k, hk⟩
    exact ⟨_, mem_entries_of_lookup hk, rfl⟩

end HashMap

variable {κ υ τ : Type} [DecidableEq κ] [LinearOrder τ] (key : υ → κ) (time : υ → τ)

/-- Feed one value: it is kept if its key has none, or an earlier one. -/
def insert_latest (m : HashMap κ υ) (v : υ) : HashMap κ υ :=
  match m.lookup (key v) with
  | some old => if time old < time v then m.insert (key v) v else m
  | none => m.insert (key v) v

/-- The map holds the latest of `xs` for each key, and nothing else. -/
structure Latest (xs : List υ) (m : HashMap κ υ) : Prop where
  from_list : ∀ {k v}, m.lookup k = some v → key v = k ∧ v ∈ xs
  latest : ∀ {k v}, m.lookup k = some v → ∀ x ∈ xs, key x = k → time x ≤ time v
  has_all : ∀ x ∈ xs, ∃ v, m.lookup (key x) = some v

variable {key time}

theorem latest_nil : Latest key time ([] : List υ) (∅ : HashMap κ υ) where
  from_list := by
    intro k v h
    rw [AList.lookup_empty] at h
    cases h
  latest := by
    intro k v _ x hx
    cases hx
  has_all := by
    intro x hx
    cases hx

/-- A value that takes its place, or finds it empty. -/
theorem Latest.insert {xs : List υ} {m : HashMap κ υ} (h : Latest key time xs m) {v : υ}
    (hv : ∀ old, m.lookup (key v) = some old → time old ≤ time v) :
    Latest key time (xs ++ [v]) (m.insert (key v) v) where
  from_list := by
    intro k w hw
    rw [HashMap.lookup_insert'] at hw
    split at hw
    · cases hw
      exact ⟨by simp_all, by simp⟩
    · exact ⟨(h.from_list hw).1, List.mem_append_left _ (h.from_list hw).2⟩
  latest := by
    intro k w hw x hx hkey
    rw [HashMap.lookup_insert'] at hw
    split at hw
    · rename_i hk
      cases hw
      rcases List.mem_append.1 hx with hx | hx
      · -- an old value of the key is no later than the one that was there
        obtain ⟨old, hold⟩ := h.has_all x hx
        have hle := h.latest hold x hx rfl
        rw [hkey, hk] at hold
        exact le_trans hle (hv old hold)
      · rw [List.mem_singleton.1 hx]
    · rename_i hk
      rcases List.mem_append.1 hx with hx | hx
      · exact h.latest hw x hx hkey
      · rw [List.mem_singleton.1 hx] at hkey
        exact absurd hkey.symm hk
  has_all := by
    intro x hx
    rw [HashMap.lookup_insert']
    split
    · exact ⟨v, rfl⟩
    · rename_i hk
      rcases List.mem_append.1 hx with hx | hx
      · exact h.has_all x hx
      · rw [List.mem_singleton.1 hx] at hk
        exact absurd rfl hk

/-- A value that comes no later than the one that is there changes nothing. -/
theorem Latest.keep {xs : List υ} {m : HashMap κ υ} (h : Latest key time xs m) {v old : υ}
    (hold : m.lookup (key v) = some old) (hle : time v ≤ time old) :
    Latest key time (xs ++ [v]) m where
  from_list := fun hw => ⟨(h.from_list hw).1, List.mem_append_left _ (h.from_list hw).2⟩
  latest := by
    intro k w hw x hx hkey
    rcases List.mem_append.1 hx with hx | hx
    · exact h.latest hw x hx hkey
    · rw [List.mem_singleton.1 hx] at hkey ⊢
      rw [hkey, hw] at hold
      cases hold
      exact hle
  has_all := by
    intro x hx
    rcases List.mem_append.1 hx with hx | hx
    · exact h.has_all x hx
    · rw [List.mem_singleton.1 hx]
      exact ⟨old, hold⟩

theorem Latest.insert_latest {xs : List υ} {m : HashMap κ υ} (h : Latest key time xs m) (v : υ) :
    Latest key time (xs ++ [v]) (insert_latest key time m v) := by
  unfold Fsmon.insert_latest
  cases hold : m.lookup (key v) with
  | none =>
      refine h.insert fun old hsome => ?_
      rw [hold] at hsome
      cases hsome
  | some old =>
      simp only
      split
      · rename_i hlt
        refine h.insert fun old' hsome => ?_
        rw [hold] at hsome
        cases hsome
        exact le_of_lt hlt
      · rename_i hlt
        exact h.keep hold (le_of_not_gt hlt)

/-- **Feeding a list.** -/
theorem latest_foldl : ∀ (ys : List υ) {xs : List υ} {m : HashMap κ υ}, Latest key time xs m →
    Latest key time (xs ++ ys) (ys.foldl (Fsmon.insert_latest key time) m) := by
  intro ys
  induction ys with
  | nil =>
      intro xs m h
      rw [List.append_nil]
      exact h
  | cons y ys ih =>
      intro xs m h
      rw [List.foldl_cons, show xs ++ y :: ys = (xs ++ [y]) ++ ys by simp]
      exact ih (h.insert_latest y)

/-! ## The values -/

theorem Latest.nodup_values {xs : List υ} {m : HashMap κ υ} (h : Latest key time xs m) :
    (m.values.map key).Nodup := by
  have hkeys : m.values.map key = m.entries.map Sigma.fst := by
    rw [HashMap.values, List.map_map]
    refine List.map_congr_left fun e he => ?_
    exact (h.from_list (AList.mem_lookup_iff.2 he)).1
  rw [hkeys]
  exact m.nodupKeys

theorem Latest.mem_values {xs : List υ} {m : HashMap κ υ} (h : Latest key time xs m) {v : υ}
    (hv : v ∈ m.values) : v ∈ xs ∧ ∀ x ∈ xs, key x = key v → time x ≤ time v := by
  obtain ⟨k, hk⟩ := HashMap.mem_values.1 hv
  obtain ⟨rfl, hmem⟩ := h.from_list hk
  exact ⟨hmem, h.latest hk⟩

theorem Latest.key_mem_values {xs : List υ} {m : HashMap κ υ} (h : Latest key time xs m) {x : υ}
    (hx : x ∈ xs) : key x ∈ m.values.map key := by
  obtain ⟨v, hv⟩ := h.has_all x hx
  exact List.mem_map.2 ⟨v, HashMap.mem_values.2 ⟨_, hv⟩, (h.from_list hv).1⟩

end Fsmon
