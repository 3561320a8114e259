/-
# `Fsmon.Lib.SlotMap` — a map that hands out its keys

`slotmap::SlotMap`: inserting a value yields a key, and a removed key is never
valid again.  A key is a position here, and a removed position stays empty; the
real map reuses the slot under a new version, which no holder of an old key can
tell from a new slot.

The lookup equations say what each operation leaves at every key, and
`find_some` what a search returns.
-/
import Mathlib.Data.List.Basic

namespace Fsmon

structure SlotMap (υ : Type) where
  slots : List (Option υ)
  deriving DecidableEq, Repr

namespace SlotMap

variable {υ : Type}

def empty : SlotMap υ := ⟨[]⟩

def get (m : SlotMap υ) (k : Nat) : Option υ := m.slots[k]?.join

/-- The key the next insertion returns. -/
def next (m : SlotMap υ) : Nat := m.slots.length

def insert (m : SlotMap υ) (v : υ) : SlotMap υ := ⟨m.slots ++ [some v]⟩

def remove (m : SlotMap υ) (k : Nat) : SlotMap υ := ⟨m.slots.set k none⟩

/-- `if let Some(v) = m.get_mut(k)`. -/
def modify (m : SlotMap υ) (k : Nat) (f : υ → υ) : SlotMap υ := ⟨m.slots.modify k (Option.map f)⟩

/-- `m.iter().find(..)`: the first value that meets `p`, with its key. -/
def find (m : SlotMap υ) (p : υ → Bool) : Option (Nat × υ) :=
  (m.slots.findIdx? fun o => o.any p).bind fun k => (m.get k).map fun v => (k, v)

def len (m : SlotMap υ) : Nat := m.slots.countP Option.isSome

def keys (m : SlotMap υ) : List Nat := (List.range m.slots.length).filter fun k => (m.get k).isSome

@[simp] theorem get_empty (k : Nat) : (empty : SlotMap υ).get k = none := by simp [empty, get]

theorem get_insert (m : SlotMap υ) (v : υ) (q : Nat) :
    (m.insert v).get q = if q = m.next then some v else m.get q := by
  unfold get insert next
  rcases Nat.lt_trichotomy q m.slots.length with h | rfl | h
  · rw [if_neg (Nat.ne_of_lt h), List.getElem?_append_left h]
  · simp
  · rw [if_neg (Nat.ne_of_gt h), List.getElem?_eq_none (by simp; omega),
      List.getElem?_eq_none (by omega)]

theorem get_remove (m : SlotMap υ) (k q : Nat) :
    (m.remove k).get q = if q = k then none else m.get q := by
  unfold get remove
  by_cases h : q = k
  · subst h
    rw [if_pos rfl, List.getElem?_set]
    split
    · split <;> rfl
    · contradiction
  · rw [if_neg h, List.getElem?_set_ne (Ne.symm h)]

theorem get_modify (m : SlotMap υ) (k : Nat) (f : υ → υ) (q : Nat) :
    (m.modify k f).get q = if q = k then (m.get q).map f else m.get q := by
  unfold get modify
  rw [List.getElem?_modify]
  by_cases h : q = k
  · subst h
    rw [if_pos rfl]
    cases m.slots[q]? with
    | none => rfl
    | some o => cases o <;> simp
  · rw [if_neg h]
    simp [Ne.symm h]

theorem len_pos {m : SlotMap υ} {k : Nat} {v : υ} (h : m.get k = some v) : 0 < m.len := by
  rw [get] at h
  rw [len]
  rw [List.countP_pos_iff]
  cases ho : m.slots[k]? with
  | none => simp [ho] at h
  | some o => exact ⟨o, List.mem_of_getElem? ho, by rw [show o = some v by simpa [ho] using h]; rfl⟩

/-- Keys in use are below the next one. -/
theorem lt_next {m : SlotMap υ} {k : Nat} {v : υ} (h : m.get k = some v) : k < m.next := by
  rw [get] at h
  by_contra hk
  rw [List.getElem?_eq_none (by unfold next at hk; omega)] at h
  cases h

theorem find_some {m : SlotMap υ} {p : υ → Bool} {k : Nat} {v : υ} (h : m.find p = some (k, v)) :
    m.get k = some v ∧ p v = true := by
  rw [find] at h
  rw [Option.bind_eq_some_iff] at h
  obtain ⟨i, hi, hv⟩ := h
  rw [Option.map_eq_some_iff] at hv
  obtain ⟨w, hw, hkw⟩ := hv
  cases hkw
  rw [List.findIdx?_eq_some_iff_getElem] at hi
  obtain ⟨hk, hp, _⟩ := hi
  refine ⟨hw, ?_⟩
  rw [get] at hw
  rw [List.getElem?_eq_getElem hk] at hw
  rw [show m.slots[k] = some v from hw] at hp
  exact hp

theorem find_none {m : SlotMap υ} {p : υ → Bool} (h : m.find p = none) {k : Nat} {v : υ}
    (hv : m.get k = some v) : p v = false := by
  rw [find] at h
  cases hi : m.slots.findIdx? fun o => o.any p with
  | some i =>
      -- the value at the position found is there
      rw [List.findIdx?_eq_some_iff_getElem] at hi
      obtain ⟨hk, hp, _⟩ := hi
      cases ho : m.slots[i] with
      | none => simp [ho] at hp
      | some w =>
          rw [(List.findIdx?_eq_some_iff_getElem).2 ⟨hk, hp, by assumption⟩] at h
          simp [get, List.getElem?_eq_getElem hk, ho] at h
  | none =>
      rw [List.findIdx?_eq_none_iff] at hi
      rw [get] at hv
      cases ho : m.slots[k]? with
      | none => simp [ho] at hv
      | some o =>
          rw [ho] at hv
          subst hv
          simpa using hi _ (List.mem_of_getElem? ho)

/-- A search finds a value exactly when there is one. -/
theorem find_isSome {m : SlotMap υ} {p : υ → Bool} :
    (m.find p).isSome = true ↔ ∃ k v, m.get k = some v ∧ p v = true := by
  constructor
  · intro h
    obtain ⟨⟨k, v⟩, hfind⟩ := Option.isSome_iff_exists.1 h
    exact ⟨k, v, find_some hfind⟩
  · rintro ⟨k, v, hv, hp⟩
    cases hfind : m.find p with
    | some r => rfl
    | none =>
        rw [find_none hfind hv] at hp
        cases hp

/-! ## What a search finds after a change -/

theorem next_insert (m : SlotMap υ) (v : υ) : (m.insert v).next = m.next + 1 := by
  rw [next, insert, List.length_append]
  rfl

theorem next_modify (m : SlotMap υ) (k : Nat) (f : υ → υ) : (m.modify k f).next = m.next :=
  List.length_modify ..

theorem next_remove (m : SlotMap υ) (k : Nat) : (m.remove k).next = m.next := List.length_set

/-- A search finds the first value that meets `p`. -/
theorem find_first {m : SlotMap υ} {p : υ → Bool} {k q : Nat} {v w : υ} (h : m.find p = some (k, v))
    (hq : q < k) (hw : m.get q = some w) : p w = false := by
  rw [find, Option.bind_eq_some_iff] at h
  obtain ⟨i, hi, hv⟩ := h
  rw [Option.map_eq_some_iff] at hv
  obtain ⟨_, _, hkw⟩ := hv
  cases hkw
  obtain ⟨_, _, hbefore⟩ := List.findIdx?_eq_some_iff_getElem.1 hi
  have hnone := hbefore q hq
  rw [get] at hw
  obtain ⟨_, hslot⟩ := List.getElem?_eq_some_iff.1 (Option.join_eq_some_iff.1 hw)
  rw [hslot] at hnone
  simpa using hnone

theorem find_eq_some {m : SlotMap υ} {p : υ → Bool} {k : Nat} {v : υ} :
    m.find p = some (k, v) ↔
      m.get k = some v ∧ p v = true ∧ ∀ q < k, ∀ w, m.get q = some w → p w = false := by
  constructor
  · intro h
    obtain ⟨hget, hp⟩ := find_some h
    exact ⟨hget, hp, fun q hq w hw => find_first h hq hw⟩
  · rintro ⟨hget, hp, hbefore⟩
    cases hfind : m.find p with
    | none =>
        rw [find_none hfind hget] at hp
        cases hp
    | some r =>
        obtain ⟨k', v'⟩ := r
        obtain ⟨hget', hp'⟩ := find_some hfind
        rcases Nat.lt_trichotomy k' k with hlt | rfl | hgt
        · rw [hbefore k' hlt v' hget'] at hp'
          cases hp'
        · rw [hget] at hget'
          cases hget'
          rfl
        · rw [find_first hfind hgt hget] at hp
          cases hp

/-- The keys in use, each once. -/
theorem mem_keys {m : SlotMap υ} {k : Nat} : k ∈ m.keys ↔ (m.get k).isSome = true := by
  rw [keys, List.mem_filter, List.mem_range, and_iff_right_iff_imp]
  intro h
  obtain ⟨v, hv⟩ := Option.isSome_iff_exists.1 h
  exact lt_next hv

theorem nodup_keys (m : SlotMap υ) : m.keys.Nodup := List.nodup_range.filter _

end SlotMap

end Fsmon
